/-
# The gateway as a system

`body` is the coroutine of each program, and `gateway cfg` the system of them all
over the state `World`.  A run starts from an installation whose store is new.
-/

import MorpheusGateway.App

namespace MorpheusGateway

open Coro (perform)
open Sessions App

variable (cfg : Config)

/-- A request ends with an answer or an error response. -/
def handled {α : Type} (c : Op α) : OpE Empty Unit := do
  discard <| c.attempt

/-- A spawned task leaves its result behind. -/
def settled (handle : ℕ) (c : Op Unit) : OpE Empty Unit := do
  perform (.finish handle (← c.attempt))

/-- A task of `schedule_close`. -/
def scheduledClose (id : RowId) : Op Unit := do
  let r ← (close cfg id).attempt
  perform (.stopClosing id)
  match r with
  | .ok _ | .error (.gateway _) => return ()
  | .error e => Coro.raise e

/-- An opener, and the callback that its end schedules. -/
def openerTask (handle : ℕ) (modelId : String) (revision : ℕ) : OpE Empty Unit := do
  settled handle (openModel cfg modelId revision)
  handled (spawn (.openerDone handle modelId))

/-- The coroutine of a spawned task. -/
def taskBody (handle : ℕ) : Work → OpE Empty Unit
  | .opener modelId revision => openerTask cfg handle modelId revision
  | .openerDone opener modelId => handled (openerDone opener modelId)
  | .scheduledClose id => settled handle (scheduledClose cfg id)
  | .sweep => settled handle (sweep cfg)
  | .treasury => settled handle (treasury cfg true)
  | .restart op immediate applyRating => settled handle (_restart cfg op immediate applyRating)
  | .cleanup c => settled handle (cleanup c)
  | .tick => settled handle (runTurn cfg)

/-- The coroutine of a program. -/
def body (_ : ℕ) : Program → OpE Empty Unit
  | .run => handled (run cfg)
  | .task handle w => taskBody cfg handle w
  | .chat call => handled (completion cfg call)
  | .prewarm modelId rounds => handled (acquire cfg modelId true rounds)
  | .close id stopMaintaining => handled (close cfg id stopMaintaining)
  | .bind id chainId => handled (bind cfg id chainId)
  | .putPolicy p => handled (putPolicy p)
  | .editKey id models concurrency rpm => handled (editKey id models concurrency rpm)
  | .revokeKey id => handled (revoke id)
  | .createKey key idempotencyKey => handled (createKey key idempotencyKey)
  | .recoveryRun => handled recoveryRun
  | .withdraw => handled startWithdrawal
  | .restart immediate applyRating => handled (restart cfg immediate applyRating)
  | .status => handled (status cfg)

/-- The gateway. -/
def gateway : System World Event StoreCall Site Answer Program Drift where
  body := body cfg
  apply t e s := s.apply t e
  legal s t i a := s.legal t i a
  begin s t p := s.begin t p
  drift d s := s.drift d
  reset s := s.reset

/-- A new installation: an empty store, no process yet. -/
def Installed (s : World) : Prop :=
  ∃ now monotonic, s = { now, monotonic }

/-- The runs of the gateway whose every step satisfies `C`. -/
abbrev Runs (C : World → List LogItem → LogItem → Prop)
    (m : Machine World Event StoreCall Site Answer Program Drift) : Prop :=
  (gateway cfg).Reach Installed C m

end MorpheusGateway
