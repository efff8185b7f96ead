import MarkitdownServer.Model.Text

/-! # The file name in a URL

What `download` takes from a URL: `urlparse` up to the path, and `os.path.basename` of the path. The path is not
unquoted. What `urlparse` makes of the query, the fragment and the parameters is left out.
-/

namespace MarkitdownServer

/-- The parts of a URL that go into the path or into the checks. -/
structure ParsedUrl where
  scheme : Str
  netloc : Str
  path : Str
deriving DecidableEq

namespace ParsedUrl

/-- `uses_params`. -/
def usesParams : List Str :=
  [lit "", lit "ftp", lit "hdl", lit "prospero", lit "http", lit "imap", lit "https", lit "shttp", lit "rtsp",
    lit "rtsps", lit "rtspu", lit "sip", lit "sips", lit "mms", lit "sftp", lit "tel"]

/-- A character that a scheme may have. -/
def isSchemeChar (c : Char) : Bool := c.isAlphanum || c = '+' || c = '-' || c = '.'

/-- The URL without control characters and blanks in front, and without the line ends and tabs in it. -/
def cleaned (url : Str) : Str :=
  (url.dropWhile fun c => decide (c.toNat ≤ 0x20)).filter fun c => c ≠ '\t' && c ≠ '\r' && c ≠ '\n'

/-- The scheme, in lower case, and what follows its colon. -/
def splitScheme (url : Str) : Str × Str :=
  let scheme := url.takeWhile (· ≠ ':')
  if scheme.length < url.length && scheme.head?.any Char.isAlpha && scheme.all isSchemeChar then
    (scheme.map Char.toLower, url.drop (scheme.length + 1))
  else ([], url)

/-- `_splitnetloc`, if there is a network location. -/
def splitNetloc : Str → Str × Str
  | '/' :: '/' :: rest => rest.span fun c => c ≠ '/' && c ≠ '?' && c ≠ '#'
  | url => ([], url)

end ParsedUrl

/-- `os.path.basename`. -/
def basename (path : Str) : Str := (path.reverse.takeWhile (· ≠ '/')).reverse

/-- `_splitparams` without the parameters: the last segment ends at its first semicolon. -/
def dropParams (path : Str) : Str :=
  path.take (path.length - (basename path).length) ++ (basename path).takeWhile (· ≠ ';')

/-- `urlparse`, without its checks of the network location. -/
def urlparse (url : Str) : ParsedUrl :=
  let (scheme, rest) := ParsedUrl.splitScheme (ParsedUrl.cleaned url)
  let (netloc, rest) := ParsedUrl.splitNetloc rest
  let path := (rest.takeWhile (· ≠ '#')).takeWhile (· ≠ '?')
  ⟨scheme, netloc, if scheme ∈ ParsedUrl.usesParams then dropParams path else path⟩

example : urlparse (lit "HTTP://host:80/a;b/c.pdf;v=1?x=/y#z") = ⟨lit "http", lit "host:80", lit "/a;b/c.pdf"⟩ := by
  decide

end MarkitdownServer
