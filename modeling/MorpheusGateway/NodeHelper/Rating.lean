/-
# The rating the helper accepts

The helper has a schema of its own for the rating that the gateway sends, and puts its
lists in normal form once more.  `Supervisor.restart` is called with what comes of that.
-/

import MorpheusGateway.NodeHelper
import MorpheusGateway.NodeHelper.Endpoints
import MorpheusGateway.Settings

namespace MorpheusGateway
namespace NodeHelper

/-- `Params`. -/
structure Params where
  weights : Weights

/-- `Rating`. -/
structure Rating where
  algorithm : String := "default"
  providerAllowlist : List String := []
  providerDenylist : List String := []
  params : Params

/-- The schema of `Params`. -/
def Params.schema (r : Runtime) : Codec Params :=
  Record.plain (.required "weights" (Weights.schema r) .done) (fun (weights, _) => ⟨weights⟩)
    (fun p => (p.weights, ())) fun _ => rfl

namespace Rating

/-- The schema of `Rating`. -/
def schema (r : Runtime) : Codec Rating :=
  Record.plain
    (.optional "algorithm" "default" (Codec.text.such fun s => s = "default") <|
     .optional "providerAllowlist" [] (Codec.text.list none) <|
     .optional "providerDenylist" [] (Codec.text.list none) <|
     .required "params" (Params.schema r) .done)
    (fun (algorithm, providerAllowlist, providerDenylist, params, _) =>
      ⟨algorithm, providerAllowlist, providerDenylist, params⟩)
    (fun g => (g.algorithm, g.providerAllowlist, g.providerDenylist, g.params, ()))
    fun _ => rfl

/-- `Rating.validated`, `None` where it raises. -/
def validated (r : Runtime) (g : Rating) : Option Json :=
  (Providers.schema.read (.obj [("allow", .arr (g.providerAllowlist.map .str)),
    ("deny", .arr (g.providerDenylist.map .str))])).map fun addresses =>
      (schema r).dump { g with
        providerAllowlist := addresses.allow, providerDenylist := addresses.deny }

end Rating

/-- `RestartRequest`. -/
def RestartRequest.schema (r : Runtime) : Codec (RestartRequest Rating) :=
  Record.plain
    (.optional "rating" none ((Rating.schema r).nullable fun _ => nofun) <|
     .optional "operation_id" none ((Codec.text.such isOperationId).nullable fun _ => nofun) .done)
    (fun (rating, operationId, _) => ⟨rating, operationId⟩)
    (fun q => (q.rating, q.operationId, ())) fun _ => rfl

end NodeHelper
end MorpheusGateway
