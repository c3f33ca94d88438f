import Mathlib.Data.List.Basic
import Mathlib.Data.Rat.Defs

/-!
# Authentication of WebSocket connections

A connection presents a bearer token, and later perhaps others in its place. Decoding a token
and checking its signature is a parameter. The scope of a token says which channels it may
read.
-/

namespace LedgerLens.Streaming

/-- The claims of a token, as far as the server reads them. -/
structure Claims where
  /-- `sub`. -/
  sub : Option String
  /-- `scope`. -/
  scope : Option String
  /-- `exp`. -/
  exp : Option ℚ
  deriving DecidableEq

/-- `client_id`. -/
def Claims.clientId (claims : Claims) : String := claims.sub.getD "unknown"

/-- The characters at which `str.split` splits. -/
def isSpace (c : Char) : Bool :=
  c ∈ ['\t', '\n', '\x0b', '\x0c', '\r', '\x1c', '\x1d', '\x1e', '\x1f', ' ', '\x85', '\xa0',
    '\u1680', '\u2000', '\u2001', '\u2002', '\u2003', '\u2004', '\u2005', '\u2006', '\u2007',
    '\u2008', '\u2009', '\u200a', '\u2028', '\u2029', '\u202f', '\u205f', '\u3000']

/-- `scope.split()`. -/
def splitScope (scope : String) : List String :=
  ((scope.toList.splitOnP isSpace).filter (· ≠ [])).map String.ofList

/-- `JWTAuthenticator`, with `jwt.decode` for its key: the claims of a token whose signature,
issuer and expiry are in order at a time. -/
structure JWTAuthenticator where
  /-- `jwt.decode`. -/
  decode : String → ℚ → Option Claims

namespace JWTAuthenticator

/-- `_has_scores_read_scope`. -/
def hasScoresReadScope (scope : String) : Bool :=
  (splitScope scope).any (·.startsWith "scores:read")

/-- `verify`. -/
def verify (auth : JWTAuthenticator) (token : String) (now : ℚ) : Option Claims :=
  if token = "" then none
  else
    match auth.decode token now with
    | none => none
    | some claims =>
      if claims.sub.isNone then none
      else if hasScoresReadScope (claims.scope.getD "") then some claims
      else none

/-- `now >= exp` for an expiry, where `none` stands for infinity. -/
def expired (now : ℚ) (exp : Option ℚ) : Bool := exp.any (· ≤ now)

/-- `verify_refresh`. -/
def verifyRefresh (auth : JWTAuthenticator) (token currentSub : String) (currentExp : Option ℚ)
    (now : ℚ) : Option Claims :=
  if expired now currentExp then none
  else
    match auth.verify token now with
    | none => none
    | some claims => if claims.sub = some currentSub then some claims else none

/-- `token_expiry`, where `none` stands for infinity. -/
def tokenExpiry (claims : Claims) : Option ℚ := claims.exp

/-- What a word of the scope contributes to the permissions. -/
def permission? (word : String) : Option String :=
  if word = "scores:read" then some "scores:read:all"
  else if word.startsWith "scores:read:" then some word
  else none

/-- `extract_permissions`. -/
def extractPermissions (claims : Claims) : List String :=
  (splitScope (claims.scope.getD "")).filterMap permission?

/-- `is_permitted_channel`. -/
def isPermittedChannel (permissions : List String) (channel : String) : Bool :=
  if channel = "all" then "scores:read:all" ∈ permissions
  else permissions.any fun perm =>
    perm = "scores:read:all" || (perm.startsWith "scores:read:" &&
      perm.toList.drop "scores:read:".length = channel.toList)

end JWTAuthenticator

end LedgerLens.Streaming
