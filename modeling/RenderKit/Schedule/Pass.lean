import RenderKit.Table
import RenderKit.Text.Quoted

/-!
# Render passes

A unit of work with the resources it reads and writes, named by agreement between passes, and the
passes that it is told to follow. What a pass does when it runs is a function on a state of the
caller's choice; a pass without one only takes part in the order.
-/

namespace RenderKit

/-- Names, each once and in ascending order. -/
abbrev NameSet := Table Unit

namespace NameSet

/-- The set with one more name. -/
def add (s : NameSet) (name : String) : NameSet :=
  s.insert name ()

/-- The names of a list. -/
def ofList (names : List String) : NameSet :=
  names.foldl add .empty

/-- The set with the names of a list added. -/
def addAll (s : NameSet) (names : List String) : NameSet :=
  names.foldl add s

end NameSet

/-- A render pass whose work changes a state of type `σ`. -/
structure Pass (σ : Type) where
  name : String
  reads : NameSet := .empty
  writes : NameSet := .empty
  after : List String := []
  callback : Option (σ → σ) := none

namespace Pass

variable {σ : Type}

/-- A pass that follows the named ones, each mentioned once. -/
def following (p : Pass σ) (names : List String) : Pass σ :=
  { p with after := (p.after ++ names).eraseDups }

/-- A pass that uses further resources. -/
def extend (p : Pass σ) (reads writes : List String) : Pass σ :=
  { p with reads := p.reads.addAll reads, writes := p.writes.addAll writes }

/-- Whether a pass has work to do. -/
def hasCallback (p : Pass σ) : Bool :=
  p.callback.isSome

/-- The state after the pass ran. -/
def run (p : Pass σ) (s : σ) : σ :=
  match p.callback with
  | some work => work s
  | none => s

/-- Quoted names between marks. -/
def listText (opening closing : String) (names : List String) : String :=
  opening ++ ", ".intercalate (names.map Text.quoted) ++ closing

/-- A pass on one line. -/
def debugText (p : Pass σ) : String :=
  "RenderPass \x7b name: " ++ Text.quoted p.name
    ++ ", reads: " ++ listText "\x7b" "\x7d" p.reads.names
    ++ ", writes: " ++ listText "\x7b" "\x7d" p.writes.names
    ++ ", after: " ++ listText "[" "]" p.after
    ++ ", has_callback: " ++ (if p.hasCallback then "true" else "false") ++ " \x7d"

end Pass

end RenderKit
