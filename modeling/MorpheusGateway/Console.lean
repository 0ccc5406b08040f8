/-
# Signing in to the console

The administrator signs in with the one secret of the configuration and gets a cookie, which
is good for twelve hours.  The store keeps the digest of each cookie, with the digest of the
secret and the generation at that time (`epoch`).  Signing everybody out draws a new
generation.  Digests are represented by the texts they are digests of.

Wrong attempts are counted for each source, in memory.  None of the requests awaits anything
between reading the state and changing it, so each is one step.  A write that fails ends the
request with the answer for storage errors.
-/

import MorpheusGateway.Table
import MorpheusGateway.Window
import Mathlib.Algebra.Order.Ring.Unbundled.Rat
import Mathlib.Data.List.Infix

namespace MorpheusGateway

/-- A record of the kind `admin`, with the cookie of which its ID is the digest. -/
structure SignIn where
  token : String
  csrf : String
  expires : ℚ
  epoch : String
  deriving DecidableEq

/-- What the requests of the console read: the configuration, the clock, what the store has of
`auth_generation` and `admin`, and the times of the wrong attempts of each source. -/
structure Console where
  adminToken : String
  publicOrigin : String
  now : ℚ
  generation : Option String := none
  admin : Table SignIn.token := .empty
  logins : Table (Prod.fst : String × List ℚ → String) := .empty

/-- Why a request is refused. -/
inductive Denial : Type where
  | invalidOrigin | loginRateLimit | wrongSecret | unauthorized | csrf
  | notAscii | storage
  deriving DecidableEq

/-- The code of the answer.  A header that `compare_digest` does not take is an internal
error. -/
def Denial.code : Denial → String
  | invalidOrigin => "invalid_origin"
  | loginRateLimit => "login_rate_limit"
  | wrongSecret | unauthorized => "unauthorized"
  | csrf => "csrf"
  | notAscii => "internal_error"
  | storage => "storage_unavailable"

/-- The status of the answer. -/
def Denial.status : Denial → ℕ
  | invalidOrigin | csrf => 403
  | loginRateLimit => 429
  | wrongSecret | unauthorized => 401
  | notAscii => 500
  | storage => 503

/-- The message of the answer. -/
def Denial.message : Denial → String
  | invalidOrigin => "Administrative changes require the configured browser origin"
  | loginRateLimit => "Too many invalid sign-in attempts; wait one minute"
  | wrongSecret => "Invalid administrator secret"
  | unauthorized => "Sign in to administer this installation"
  | csrf => "Invalid browser session token"
  | notAscii => "Internal Server Error"
  | storage => "Storage unavailable; check free disk space and restore instructions"

/-- What a request carries that `admin` looks at. -/
structure Credentials where
  cookie : Option String := none
  origin : Option String := none
  csrf : Option String := none

/-- `str(store.get("settings", "auth_generation"))`. -/
def generationText : Option String → String
  | none => "None"
  | some value => "\x7b'value': '" ++ value ++ "'\x7d"

/-- What `auth_epoch` is the digest of. -/
def epochText (secret : String) (generation : Option String) : String :=
  secret ++ generationText generation

/-- The text is ASCII. -/
def isAscii (text : String) : Bool := text.toList.all fun ch => ch.toNat < 128

namespace Console

variable (c : Console)

/-- `auth_epoch`. -/
def authEpoch : String := epochText c.adminToken c.generation

/-- `check_origin`. -/
def checkOrigin (origin : Option String) : Except Denial Unit :=
  if origin = some c.publicOrigin then .ok () else .error .invalidOrigin

/-- `hmac.compare_digest` of a header and an ASCII text. -/
def compareDigest (header text : String) : Except Denial Bool :=
  if isAscii header then .ok (header = text) else .error .notAscii

/-- The record of a cookie that is good now. -/
def signedIn (cookie : Option String) : Option SignIn :=
  if cookie.getD "" = "" then none
  else (c.admin.get (cookie.getD "")).filter fun auth =>
    !(auth.expires < c.now || auth.epoch ≠ c.authEpoch)

/-- `admin`, on which every request of the console depends.  `safe` are the methods `GET` and
`HEAD`. -/
def authorize (safe : Bool) (r : Credentials) : Except Denial SignIn := do
  match c.signedIn r.cookie with
  | none => throw .unauthorized
  | some auth =>
    if !safe then
      c.checkOrigin r.origin
      if ¬ (← compareDigest (r.csrf.getD "") auth.csrf) then
        throw .csrf
    return auth

/-! ### Signing in and out -/

/-- The sources that are remembered. -/
def forget : Console :=
  { c with logins := c.logins.filter fun p => p.2.getLast?.any fun last => c.now - 60 ≤ last }

/-- The times remembered of a source. -/
def bucket (source : String) : List ℚ := ((c.logins.get source).map Prod.snd).getD []

/-- Remember these times of a source. -/
def remember (source : String) (times : List ℚ) : Console :=
  { c with logins := c.logins.put (source, times) }

/-- `logins.pop(source, None)`. -/
def dropSource (source : String) : Console :=
  { c with logins := c.logins.filter fun p => !(p.1 = source) }

/-- Delete the expired records that pass the test. -/
def dropExpired (test : SignIn → Bool) : Console :=
  { c with admin := c.admin.filter fun auth => !(auth.expires < c.now && test auth) }

/-- Store a new record for the cookie. -/
def grant (cookie csrf : String) : Console :=
  { c with admin := c.admin.put ⟨cookie, csrf, c.now + 12 * 3600, c.authEpoch⟩ }

/-- How the writes of a request end.  When one fails, `deleted` says which of the expired
records were deleted before. -/
inductive Writes : Type where
  | work
  | fail (deleted : SignIn → Bool)

/-- `login`, with the random texts it draws: the state it leaves, and the CSRF text or the
reason of the refusal. -/
def login (token : String) (origin host : Option String) (cookie csrf : String) (writes : Writes) :
    Console × Except Denial String :=
  match c.checkOrigin origin with
  | .error d => (c, .error d)
  | .ok () =>
    let source := host.getD "unknown"
    let times := Window.trim (c.now - 60) (c.forget.bucket source)
    let c := c.forget.remember source times
    -- A known correct secret can always recover access; failed callers cannot lock it out.
    if token ≠ c.adminToken then
      if 10 ≤ times.length ∨ 10000 < c.logins.rows.length then (c, .error .loginRateLimit)
      else (c.remember source (times ++ [c.now]), .error .wrongSecret)
    else
      match writes with
      | .work => (((c.dropSource source).dropExpired fun _ => true).grant cookie csrf, .ok csrf)
      | .fail deleted => ((c.dropSource source).dropExpired deleted, .error .storage)

/-- `logout`. -/
def logout (r : Credentials) (stored : Bool) : Console × Except Denial Unit :=
  match c.checkOrigin r.origin with
  | .error d => (c, .error d)
  | .ok () =>
    if stored then
      ({ c with admin := c.admin.filter fun auth => !(auth.token = r.cookie.getD "") }, .ok ())
    else (c, .error .storage)

/-- `logout_all`, with the generation that it draws. -/
def logoutAll (r : Credentials) (value : String) (stored : Bool) : Console × Except Denial Unit :=
  match c.authorize false r with
  | .error d => (c, .error d)
  | .ok _ => if stored then ({ c with generation := some value }, .ok ()) else (c, .error .storage)

/-- What `Store.prune` does to the sign-ins. -/
def prune : Console := c.dropExpired fun _ => true

/-! ### Runs -/

/-- What can happen. -/
inductive Action : Type where
  | login (token : String) (origin host : Option String) (cookie csrf : String) (writes : Writes)
  | logout (r : Credentials) (stored : Bool)
  | logoutAll (r : Credentials) (value : String) (stored : Bool)
  | prune
  | restart (adminToken publicOrigin : String)
  | clock (now : ℚ)

/-- The state after an action.  A restart may come with another configuration, and forgets the
wrong attempts. -/
def act : Action → Console
  | .login token origin host cookie csrf writes =>
      (c.login token origin host cookie csrf writes).1
  | .logout r stored => (c.logout r stored).1
  | .logoutAll r value stored => (c.logoutAll r value stored).1
  | .prune => c.prune
  | .restart adminToken publicOrigin => { c with adminToken, publicOrigin, logins := .empty }
  | .clock now => { c with now }

/-- The state after some actions, the newest of which comes first. -/
def after : List Action → Console
  | [] => c
  | a :: l => (after l).act a

end Console
end MorpheusGateway
