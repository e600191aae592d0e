import Custody.Audit.Trail
import Custody.Secrets.Source
import Custody.Site

/-! A system at work: its surroundings, its audit trail and its secrets. -/
namespace Custody

structure World where
  site : Site
  trail : Audit.Trail
  secrets : Secrets.Resolver

/-- What is done in a world. What was changed before a failure stays changed. -/
abbrev Act := EStateM Failure World

namespace Act

def onDisk {α : Type} (op : DiskAct α) : Act α := fun w =>
  match op w.site.disk with
  | .ok a d => .ok a { w with site := { w.site with disk := d } }
  | .error e d => .error e { w with site := { w.site with disk := d } }

/-- A result that is required: its failure is the failure of the act. -/
def require {α : Type} : Except Failure α → Act α
  | .ok a => pure a
  | .error e => throw e

def modifyTrail (f : Audit.Trail → Audit.Trail) : Act Unit :=
  modify fun w => { w with trail := f w.trail }

def modifySite (f : Site → Site) : Act Unit :=
  modify fun w => { w with site := f w.site }

def modifySecrets (f : Secrets.Resolver → Secrets.Resolver) : Act Unit :=
  modify fun w => { w with secrets := f w.secrets }

def now : Act Moment := do
  let c := (← get).site.clock
  modifySite fun s => { s with clock := c.next }
  return c.now

def report (level : Level) (reporter : Reporter) (message : String) (fields : List (Text × Value)) : Act Unit :=
  modifySite fun s => { s with records := ⟨level, reporter, message, fields⟩ :: s.records }

/-- What happens instead when a failure of a certain sort occurs. -/
def orElse {α : Type} (a : Act α) (sort : Failure → Bool) (b : Failure → Act α) : Act α := fun w =>
  match a w with
  | .ok x w => .ok x w
  | .error e w => if sort e then b e w else .error e w

end Act

end Custody
