import ZoneKeeper.Engine.Commit
import ZoneKeeper.Settings.Basic

namespace ZoneKeeper

inductive BatchSource where
  | given (batch : Batch)
  | derived (subname : String) (build : List Rrset → Except Error Batch)

structure BatchJob where
  operation : Operation
  source : BatchSource
  minimumTtl : Option Nat

namespace Attempt

open Engine

def batch (domain : String) : BatchSource → Engine Batch
  | .given batch => return batch
  | .derived subname build => do
      let stored ← call (.list domain (.ofSubname subname))
      liftExcept (build stored)
where
  liftExcept {α : Type} (result : Except Error α) : Engine α := ExceptT.mk (pure result)

def listAt (domain : String) : List String → Engine (List Rrset)
  | [] => return []
  | subname :: rest => do
      let here : List Rrset ← call (.list domain (.ofSubname subname))
      return here ++ (← listAt domain rest)

def plan (ctx : ReviewContext) (source : BatchSource) : Engine (Plan × BatchShape) := do
  match ← call (.getDomain ctx.domain) with
  | none => throw (.noDomain ctx.domain)
  | some _ =>
      let batch ← batch ctx.domain source
      let stored ← listAt ctx.domain batch.touchedSubnames
      match Plan.make ctx batch (.ofRrsets stored) with
      | .ok plan => return (plan, batch.shape)
      | .error errors => throw (.rejected errors)

def prepare (ctx : ReviewContext) (source : BatchSource) : Engine (Plan × BatchShape) :=
  ExceptT.mk do
    EngineProgram.lock ctx.domain
    match ← (plan ctx source).run with
    | .ok result => return .ok result
    | .error e =>
        EngineProgram.unlock ctx.domain
        return .error e

def writeDuration (milliseconds : Nat) : String :=
  if milliseconds < 1000 then s!"{milliseconds}ms"
  else
    let fraction := Digits.padded 3 (milliseconds % 1000)
    let kept := (fraction.reverse.dropWhile (· == '0')).reverse
    let point := if kept.isEmpty then "" else "."
    s!"{milliseconds / 1000}{point}{String.ofList kept}s"

def timeout (domain : String) (milliseconds : Nat) : Error :=
  .timeout (s!"Batch for {domain} did not reach its commit point within "
    ++ writeDuration milliseconds)

def prepareWithin (milliseconds : Nat) (ctx : ReviewContext) (source : BatchSource) :
    Engine (Plan × BatchShape) :=
  ExceptT.mk do
    if ← EngineProgram.startTimer milliseconds then
      EngineProgram.unlock ctx.domain
      return .error (timeout ctx.domain milliseconds)
    else
      let result ← (prepare ctx source).run
      EngineProgram.stopTimer
      return result

def context (settings : EngineSettings) (domain : Domain) (job : BatchJob) : ReviewContext where
  domain := domain.name
  operation := job.operation
  minimumTtl := job.minimumTtl.getD domain.minimumTtl
  maximumTtl := settings.maximumTtl

def run (settings : EngineSettings) (domain : Domain) (job : BatchJob) : Engine BatchOutcome := do
  let ctx := context settings domain job
  let (plan, shape) ← prepareWithin settings.requestTimeout ctx job.source
  Commit.run domain.name plan shape

/-- The delay after an attempt, counted from zero, in milliseconds. There is no cap at the longest
duration, which is of 2 ^ 64 seconds: no process waits for one. -/
def delay (settings : EngineSettings) (attempt : Nat) : Nat :=
  settings.retryDelay <<< min attempt 16

def retrying {α : Type} (settings : EngineSettings) (p : Engine α) :
    (retries : Nat) → (attempt : Nat) → Engine α
  | 0, _ => p
  | retries + 1, attempt => ExceptT.mk do
      match ← p.run with
      | .ok a => return .ok a
      | .error e =>
          if e.isRetryable then
            EngineProgram.wait (delay settings attempt)
            (retrying settings p retries (attempt + 1)).run
          else return .error e

end Attempt

end ZoneKeeper
