import BlockThreads.Json.Reader

/-!
# Settings

The settings of a host: whether scripts are compiled, and how long a script may run
without giving way while it is in warp mode.

Results:
1. `read_object_nil`: an empty object means the default settings.
-/

namespace BlockThreads

open Json

/-- The settings of a host. Times are in milliseconds. -/
structure Config where
  compilerEnabled : Bool := true
  warpTime : Nat := 500
  deriving DecidableEq, Repr

namespace Config

/-- How long a script in warp mode may run before it has to give way. -/
def warpBudget (c : Config) : Nat := c.warpTime

structure Partial where
  compilerEnabled : Option Bool := none
  warpTime : Option Nat := none

/-- The settings, with the default for what is left out. -/
def Partial.finish (p : Partial) : Config where
  compilerEnabled := p.compilerEnabled.getD true
  warpTime := p.warpTime.getD 500

def Partial.step (p : Partial) (key : String) (value : Draft) : Except Fault Partial :=
  match key with
  | "compilerEnabled" =>
    (fill "compilerEnabled" p.compilerEnabled Draft.readBool value).map
      fun v => { p with compilerEnabled := v }
  | "warpTime" =>
    (fill "warpTime" p.warpTime Draft.readCount value).map fun v => { p with warpTime := v }
  | _ => value.skip.map fun _ => p

def ofItems (items : Items) : Except Fault Config := do
  let (compilerEnabled, items) ← items.next Draft.readBool
  let (warpTime, items) ← items.next Draft.readCount
  items.finish
  return Partial.finish { compilerEnabled, warpTime }

def read : Draft → Except Fault Config
  | .object members ending => (readObject Partial.step {} members ending).map Partial.finish
  | .list items ending => ofItems ⟨items, ending⟩
  | d => d.refuse (.record .config)

def ofText (text : String) : Except Fault Config := readText read text

/-- An empty object means the default settings. -/
theorem read_object_nil : read (.object [] .closed) = .ok {} := rfl

end Config

end BlockThreads
