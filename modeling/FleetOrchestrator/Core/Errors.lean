import FleetOrchestrator.Core.Fleet

/-! The errors of the HTTP handlers. -/

namespace FleetOrchestrator.Api

open Core

inductive ApiError where
  | badRequest (msg : String)
  | notFound (msg : String)
  | conflict (msg : String)
  | store (msg : String)
  | unavailable (msg : String)
  deriving DecidableEq

def ApiError.ofStore : StoreError → ApiError
  | .notFound => .notFound "entity not found"
  | .conflict msg => .conflict msg
  | e => .store e.message

end FleetOrchestrator.Api

/-! The errors of the dashboard's handlers. -/

namespace FleetOrchestrator.Dashboard

open Core

inductive ApiError where
  | badRequest (msg : String)
  | forbidden (msg : String)
  | notFound (msg : String)
  | conflict (msg : String)
  | store (msg : String)
  | internal (msg : String)
  | unavailable (msg : String)
  deriving DecidableEq

def ApiError.ofStore (e : StoreError) : ApiError := .store e.message

def permissionDenied : ApiError := .forbidden "permission denied"

end FleetOrchestrator.Dashboard
