/-! The enumerations an envelope and an organism have members of. -/

namespace PrismPipe.Core

inductive Intent
  | httpRequest | webhook | scheduledTask | stream | batch | aiTask | custom
  deriving DecidableEq

def Intent.value : Intent → String
  | httpRequest => "http_request"
  | webhook => "webhook"
  | scheduledTask => "scheduled_task"
  | stream => "stream"
  | batch => "batch"
  | aiTask => "ai_task"
  | custom => "custom"

inductive OrganismState
  | spawned | exploring | executing | learning | stored | evolving | terminated | suspended
  deriving DecidableEq

end PrismPipe.Core
