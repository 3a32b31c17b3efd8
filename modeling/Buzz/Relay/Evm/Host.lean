import Buzz.Core.Text

/-!
# Hosts and their names

A community is found by the normalized host of a request, which keeps a port that is not the default
one. The domain of a sign-in message, and that of an alias, is compared with the host without its
port.

`to_lowercase` is that of the standard library over all of Unicode, a parameter here.
-/

namespace Buzz.Evm

def toAsciiLowercase (s : String) : String := s.map Char.toLower

/-- What is before the first such character: the first piece of `split`. -/
def beforeChar (s : String) (c : Char) : String := String.ofList (s.toList.takeWhile (· != c))

def splitOnce (s : String) (c : Char) : Option (String × String) :=
  match s.toList.dropWhile (· != c) with
  | [] => none
  | _ :: rest => some (beforeChar s c, String.ofList rest)

/-- The pieces between the separators; the first argument counts what is left of the last one. -/
def splitAux (sep : List Char) : Nat → List Char → List Char → List (List Char)
  | _, piece, [] => [piece.reverse]
  | n + 1, piece, _ :: cs => splitAux sep n piece cs
  | 0, piece, c :: cs =>
    if sep.isPrefixOf (c :: cs) then piece.reverse :: splitAux sep (sep.length - 1) [] cs
    else splitAux sep 0 (c :: piece) cs

/-- `str::split`, at a text. -/
def splitStr (s sep : String) : List String :=
  (splitAux sep.toList 0 [] s.toList).map String.ofList

/-- `trim_start_matches`. Every round takes a character at least. -/
def trimStartMatchesAux (pre : List Char) : Nat → List Char → List Char
  | 0, cs => cs
  | n + 1, cs =>
    match cs.dropPrefix? pre with
    | some rest => trimStartMatchesAux pre n rest
    | none => cs

def trimStartMatches (s pre : String) : String :=
  String.ofList (trimStartMatchesAux pre.toList s.toList.length s.toList)

def normalizeHost (host : String) : String :=
  let host := toAsciiLowercase (trim host)
  let host := ((stripSuffix host ":443").orElse fun _ => stripSuffix host ":80").getD host
  (stripSuffixChar host '.').getD host

variable (toLowercase : String → String)

def hostDomain (host : String) : String :=
  let withoutScheme := beforeChar ((splitStr host "://")[1]?.getD host) '/'
  toLowercase (beforeChar withoutScheme ':')

def extractDomain (url : String) : String :=
  let rest := trimStartMatches (trimStartMatches (trimStartMatches (trimStartMatches url "wss://")
    "ws://") "https://") "http://"
  toLowercase (beforeChar (beforeChar rest ':') '/')

def canonicalizeNip05 (raw expectedHostOrUrl : String) : Except String String :=
  let trimmed := trim raw
  if trimmed.isEmpty then .error "empty"
  else
    match splitOnce trimmed '@' with
    | none => .error "nip05_handle must be in user@domain format"
    | some (name, domain) =>
      if name.isEmpty || domain.isEmpty then
        .error "nip05_handle must be in user@domain format"
      else
        let expectedDomain := extractDomain toLowercase expectedHostOrUrl
        let canonicalDomain := toLowercase domain
        if canonicalDomain ≠ expectedDomain then
          .error ("nip05_handle domain must match this relay (" ++ expectedDomain ++ ")")
        else .ok (toLowercase name ++ "@" ++ canonicalDomain)

example : normalizeHost "Relay.Example.:443" = "relay.example" := by decide +kernel

example : hostDomain toAsciiLowercase "relay.example:8443" = "relay.example" := by decide +kernel

end Buzz.Evm
