import PrismPipe.Python.Json

/-! `deepiri_bus.py`: the message every transport hands out. -/

namespace PrismPipe

open Python

structure DeepiriMessage where
  messageId : PyStr
  payload : Json
  headers : Dict
  deliveryAttempt : Int
  topic : Option String

end PrismPipe
