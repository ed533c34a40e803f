import AnnotationReport.Url.Encoding
import AnnotationReport.Url.Ipv4
import AnnotationReport.Url.Ipv6

/-! # Hosts

The host of a URL is a name or an address. Under the schemes of the web a name is decoded, put in
lower case and held to the characters of domain names, and one that ends in a number is an IPv4
address. Under other schemes a name stays as it is written.
-/
namespace AnnotationReport.Url

inductive Error where
  | noScheme
  | noBase
  | emptyHost
  | domainName
  | hostCharacter
  | ipv4
  | ipv6
  | port
deriving DecidableEq, Repr

def Error.message : Error → String
  | .noScheme => "relative URL without a base"
  | .noBase => "relative URL with a cannot-be-a-base base"
  | .emptyHost => "empty host"
  | .domainName => "invalid international domain name"
  | .hostCharacter => "invalid domain character"
  | .ipv4 => "invalid IPv4 address"
  | .ipv6 => "invalid IPv6 address"
  | .port => "invalid port number"

inductive Host where
  | name (text : List Char)
  | ipv4 (address : Nat)
  | ipv6 (pieces : List Nat)
deriving DecidableEq, Repr

namespace Host

def text : Host → List Char
  | name t => t
  | ipv4 a => Ipv4.text a
  | ipv6 ps => '[' :: Ipv6.text ps ++ [']']

/-- The characters that neither kind of name may contain. -/
def separators : List Char := [' ', '#', '/', ':', '<', '>', '?', '@', '[', '\\', ']', '^', '|']

def bracketed (text : List Char) : Except Error Host :=
  if text.getLast? = some ']' then
    match Ipv6.ofText? (text.drop 1).dropLast with
    | some ps => .ok (.ipv6 ps)
    | none => .error .ipv6
  else .error .ipv6

/-- Domain names are ASCII, without controls, separators and percent signs. -/
def allowedInDomain (c : Char) : Bool :=
  0x20 < c.toNat && c.toNat < 0x7F && c != '%' && !separators.contains c

theorem toNat_lt_of_allowedInDomain {c : Char} (hc : allowedInDomain c) : c.toNat < 0x80 := by
  simp only [allowedInDomain, Bool.and_eq_true, decide_eq_true_eq] at hc
  omega

theorem allowedInDomain_toLower {c : Char} (hc : allowedInDomain c) :
    allowedInDomain c.toLower ∧ c.toLower.toLower = c.toLower := by
  have hall : ∀ n : Fin 128, allowedInDomain (Char.ofNat n) →
      allowedInDomain (Char.ofNat n).toLower ∧
        (Char.ofNat n).toLower.toLower = (Char.ofNat n).toLower := by
    decide
  exact Text.Utf8.forall_ascii (p := fun c => allowedInDomain c →
    allowedInDomain c.toLower ∧ c.toLower.toLower = c.toLower) hall (toNat_lt_of_allowedInDomain hc) hc

theorem map_toLower_of_domain {domain : List Char} (h : ∀ c ∈ domain, allowedInDomain c ∧ c.toLower = c) :
    domain.map Char.toLower = domain :=
  (List.map_congr_left fun c hc => (h c hc).2).trans (List.map_id' domain)

/-- A domain name of ASCII, in lower case. -/
def lowerDomain? (text : List Char) : Option (List Char) :=
  if text.all allowedInDomain then some (text.map Char.toLower) else none

theorem lowerDomain?_allowed {text domain : List Char} (h : lowerDomain? text = some domain) :
    ∀ c ∈ domain, allowedInDomain c ∧ c.toLower = c := by
  unfold lowerDomain? at h
  split at h
  · rename_i hall
    obtain rfl := Option.some.inj h
    intro c hc
    obtain ⟨d, hd, rfl⟩ := List.mem_map.mp hc
    exact allowedInDomain_toLower (List.all_eq_true.mp hall d hd)
  · cases h

theorem lowerDomain?_of_allowed {domain : List Char} (h : ∀ c ∈ domain, allowedInDomain c ∧ c.toLower = c) :
    lowerDomain? domain = some domain := by
  have hall : domain.all allowedInDomain := List.all_eq_true.mpr fun c hc => (h c hc).1
  rw [lowerDomain?, if_pos hall, map_toLower_of_domain h]

/-- What stands before an encoded label. -/
def encodedMark : List Char := "xn--".toList

/-- A name of ASCII without encoded labels: only its case is to be settled. -/
def isPlain (text : List Char) : Bool :=
  text.all (·.toNat < 0x80) &&
    ((text.map Char.toLower).splitOnP (· = '.')).all fun label => !encodedMark.isPrefixOf label

end Host

/-- How the URL library makes domain names of names that are not plain, for which it has tables. A domain
name is in lower case and becomes itself. -/
class Idna where
  toAscii : List Char → Option (List Char)
  allowed : ∀ {text domain : List Char}, toAscii text = some domain →
    ∀ c ∈ domain, Host.allowedInDomain c ∧ c.toLower = c
  settled : ∀ {text domain : List Char}, toAscii text = some domain → toAscii domain = some domain

/-- Without tables encoded labels are taken as they stand, and no others are made. -/
instance Idna.noTables : Idna where
  toAscii := Host.lowerDomain?
  allowed := Host.lowerDomain?_allowed
  settled h := Host.lowerDomain?_of_allowed (Host.lowerDomain?_allowed h)

namespace Host

/-- The domain name that the bytes of a host write. -/
def domain? [Idna] (bytes : List UInt8) : Option (List Char) :=
  (Text.Utf8.decode? bytes).bind fun text =>
    if isPlain text then lowerDomain? text else Idna.toAscii text

def ofWeb [Idna] (text : List Char) : Except Error Host :=
  if text.head? = some '[' then bracketed text
  else
    match domain? (decode text) with
    | none => .error .domainName
    | some domain =>
      if domain.isEmpty then .error .emptyHost
      else if Ipv4.isNumeric domain then
        match Ipv4.ofText? domain with
        | some a => .ok (.ipv4 a)
        | none => .error .ipv4
      else .ok (.name domain)

def allowedElsewhere (c : Char) : Bool :=
  c != Char.ofNat 0 && !separators.contains c

def ofOther (text : List Char) : Except Error Host :=
  if text.head? = some '[' then bracketed text
  else if text.all allowedElsewhere then .ok (.name (encode EncodeSet.controls text))
  else .error .hostCharacter

end Host
end AnnotationReport.Url
