/-!
# Glob tokens

A glob is read from left to right as a list of tokens: two stars stand for any text on one line,
one star stands for any text without a slash, and every other character stands for itself.
`Token.Matches` says which texts a list of tokens describes.
-/

namespace BuildRunner.Glob

inductive Token
  /-- Two stars. -/
  | deep
  /-- One star. -/
  | segment
  | literal (c : Char)
deriving DecidableEq, Repr

/-- The tokens of a glob; two stars are claimed before one. -/
def tokens : List Char → List Token
  | [] => []
  | '*' :: '*' :: r => .deep :: tokens r
  | c :: r => (if c = '*' then .segment else .literal c) :: tokens r

/-- The texts that a list of tokens describes: pieces, one for each token, put together. -/
inductive Token.Matches : List Token → List Char → Prop
  | nil : Matches [] []
  | deep {piece rest ts} : '\n' ∉ piece → Matches ts rest → Matches (.deep :: ts) (piece ++ rest)
  | segment {piece rest ts} :
      '/' ∉ piece → Matches ts rest → Matches (.segment :: ts) (piece ++ rest)
  | literal {c rest ts} : Matches ts rest → Matches (.literal c :: ts) (c :: rest)

end BuildRunner.Glob
