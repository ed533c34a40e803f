import AnnotationReport.Url.Basic

/-! # Reading URLs

Blanks and controls around a URL, and tabs and line ends within it, are ignored, except that in the
path of a file they part a drive from what follows it. The scheme decides how the rest is read. An
authority ends at the first slash, question mark or hash sign, under the schemes of the web also at
a backslash; the path ends at the first question mark or hash sign.
-/
namespace AnnotationReport.Url

def isMargin (c : Char) : Bool := c.toNat ≤ 0x20

def trimmed (text : List Char) : List Char :=
  ((text.dropWhile isMargin).reverse.dropWhile isMargin).reverse

def isSchemeChar (c : Char) : Bool := c.isAlphanum || c = '+' || c = '-' || c = '.'

def splitScheme? (text : List Char) : Option (List Char × List Char) :=
  match text.dropWhile isSchemeChar with
  | ':' :: r =>
    if text.head?.any Char.isAlpha then some ((text.takeWhile isSchemeChar).map Char.toLower, r)
    else none
  | _ => none

def isSlash (web : Bool) (c : Char) : Bool := c = '/' || (web && c = '\\')

def endsPath (c : Char) : Bool := c = '?' || c = '#'

def endsAuthority (web : Bool) (c : Char) : Bool := isSlash web c || endsPath c

def splitLast? (mark : Char) : List Char → Option (List Char × List Char)
  | [] => none
  | c :: r =>
    match splitLast? mark r with
    | some (before, after) => some (c :: before, after)
    | none => if c = mark then some ([], r) else none

/-- A colon ends the user name; nothing after it is no password. -/
def Credentials.ofText (text : List Char) : Credentials :=
  let password := (text.dropWhile (· != ':')).drop 1
  ⟨encode EncodeSet.userinfo (text.takeWhile (· != ':')),
    if password.isEmpty then none else some (encode EncodeSet.userinfo password)⟩

/-- The text of a host, up to a colon that stands outside square brackets, and the rest. -/
def splitHost (inside : Bool) : List Char → List Char × List Char
  | [] => ([], [])
  | c :: r =>
    if c = ':' && !inside then ([], c :: r)
    else
      let (host, rest) := splitHost (c = '[' || (inside && c != ']')) r
      (c :: host, rest)

/-- The number of a port, if any digit is there, and what follows: nothing, or a backslash and
all after it. -/
def readPort (text : List Char) : Except Error (Option Nat × List Char) :=
  let digits := text.takeWhile Char.isDigit
  let rest := text.dropWhile Char.isDigit
  match Text.number? 10 digits with
  | none => .error .port
  | some n =>
    if n < 65536 ∧ (rest.isEmpty ∨ rest.head? = some '\\') then
      .ok (if digits.isEmpty then none else some n, rest)
    else .error .port

/-- The authority in a text, and what of the text is left over. `atEnd` says that nothing follows
the text. -/
def readAuthority [Idna] (scheme : List Char) (atEnd : Bool) (text : List Char) :
    Except Error (Authority × List Char) := do
  let web := schemeKind scheme = .web
  let (user, place) := (splitLast? '@' text).getD ([], text)
  if text.head? = some '@' ∧ user = [] ∧ place = [] ∧ atEnd = false then throw .emptyHost
  let credentials := Credentials.ofText user
  let (hostText, rest) := splitHost false place
  if hostText = [] ∧ (web ∨ rest ≠ []) then throw .emptyHost
  let host ← if web then Host.ofWeb hostText else Host.ofOther hostText
  let (port, left) ← if rest = [] then pure (none, []) else readPort (rest.drop 1)
  if hostText = [] ∧ credentials ≠ .nobody then throw .emptyHost
  pure (⟨credentials, if hostText = [] then none else some host,
    if port = defaultPort? scheme then none else port⟩, left)

def rawSegments (web : Bool) (text : List Char) : List (List Char) :=
  (text.takeWhile (!endsPath ·)).splitOnP (isSlash web)

/-- The segments that a text writes; the slash a path starts with is not part of the text. -/
def readSegments (kind : SchemeKind) (text : List Char) : List Segment :=
  Path.pushAll [] ((rawSegments (kind = .web) text).map (encode EncodeSet.path))

def readQuery (kind : SchemeKind) (text : List Char) : Option (List Char) :=
  let set := if kind = .other then EncodeSet.query else EncodeSet.specialQuery
  match text with
  | '?' :: r => some (encode set (r.takeWhile (· != '#')))
  | _ => none

def readFragment (text : List Char) : Option (List Char) :=
  match text.dropWhile (· != '#') with
  | [] => none
  | _ :: r => some (encode EncodeSet.fragment r)

/-- Whether a path without an authority before it would read as one. -/
def needsGuard : Path → Bool
  | .segments ([] :: _ :: _) => true
  | _ => false

/-- A URL from its scheme, authority and path and from the text that the path begins. -/
def assemble (scheme : List Char) (authority : Option Authority) (path : Path) (text : List Char) :
    Url :=
  let tail := text.dropWhile (!endsPath ·)
  ⟨scheme, authority, authority.isNone && needsGuard path, path,
    readQuery (schemeKind scheme) tail, readFragment tail⟩

def readHosted [Idna] (scheme text : List Char) : Except Error Url := do
  let kind := schemeKind scheme
  let web := kind = .web
  let place := text.takeWhile (!endsAuthority web ·)
  let after := text.dropWhile (!endsAuthority web ·)
  let (authority, left) ← readAuthority scheme after.isEmpty place
  let rest := left ++ after
  let path := if rest.head?.any (isSlash web) then readSegments kind (rest.drop 1)
    else if web ∨ left ≠ [] then readSegments kind rest
    else []
  pure (assemble scheme (some authority) (.segments path) rest)

/-- The segments of the path of a file, in which breaks still stand. -/
def brokenSegments (text : List Char) : List Path.Broken :=
  (rawSegments true text).map (Path.Broken.ofText EncodeSet.path)

/-- The path of a file has no empty segments at its start. -/
def fileSegments (text : List Char) : List Segment :=
  let segments := (Path.pushFile [] (brokenSegments text)).dropWhile List.isEmpty
  if segments.isEmpty then [[]] else segments

/-- The host before the path of a file. This machine's own name is as good as none. -/
def fileHost [Idna] (text : List Char) : Except Error (Option Host) :=
  if text.isEmpty then .ok none
  else (Host.ofWeb text).map fun host =>
    if host = .name "localhost".toList then none else some host

def fileUrl (scheme : List Char) (host : Option Host) (path : List Char) : Url :=
  assemble scheme (some ⟨.nobody, host, none⟩) (.segments (fileSegments path)) (significant path)

/-- What follows the two slashes before the host of a file. A drive in its place is no host and
begins the path. Where a drive begins the path, the file has no host. -/
def readFileHost [Idna] (scheme text : List Char) : Except Error Url :=
  let place := significant (text.takeWhile (!endsAuthority true ·))
  let after := text.dropWhile (!endsAuthority true ·)
  if Path.isDrive place then .ok (fileUrl scheme none text)
  else (fileHost place).map fun
    | none => fileUrl scheme none after
    | some host =>
      let path := if after.head?.any (isSlash true) then after.drop 1 else after
      let kept := !Path.beginsWithDrive [] (brokenSegments path)
      fileUrl scheme (if kept then some host else none) path

/-- What follows the colon of a file's scheme, breaks included: two slashes and a host, a path with
its slash, or a path without. -/
def readFile [Idna] (scheme text : List Char) : Except Error Url :=
  match text.dropWhile isBreak with
  | [] => .ok (fileUrl scheme none [])
  | c :: r =>
    let next := r.dropWhile isBreak
    if !isSlash true c then .ok (fileUrl scheme none text)
    else if next.head?.any (isSlash true) then readFileHost scheme (next.drop 1)
    else .ok (fileUrl scheme none r)

def readOther [Idna] (scheme text : List Char) : Except Error Url :=
  match text with
  | '/' :: '/' :: r => readHosted scheme r
  | '/' :: r => .ok (assemble scheme none (.segments (readSegments .other r)) text)
  | _ =>
    let path := encode EncodeSet.controls (text.takeWhile (!endsPath ·))
    .ok (assemble scheme none (.rootless path) text)

def ofChars [Idna] (text : List Char) : Except Error Url :=
  let text := trimmed text
  match splitScheme? (significant text) with
  | none => .error .noScheme
  | some (scheme, rest) =>
    match schemeKind scheme with
    | .web => readHosted scheme (rest.dropWhile (isSlash true))
    | .file => readFile scheme ((text.dropWhile (· != ':')).drop 1)
    | .other => readOther scheme rest

def ofText [Idna] (text : String) : Except Error Url := ofChars text.toList

end AnnotationReport.Url
