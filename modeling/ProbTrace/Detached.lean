import ProbTrace.Trace.Pass

/-!
# Detached — running a program without a trace

Outside inference a program simply draws its choices, or takes the observed values; factors and
conditions have no effect, and no budget is checked.  Call sites are kept all the same, so that the
program may ask how deep it is.
-/

namespace ProbTrace

/-- A run without a trace: its generator, where the program is, and the session. -/
structure Detached where
  generator : Generator
  sites     : CallSites := {}
  session   : Session := {}

namespace Detached

/-- The observed value of a choice, or a draw. -/
def choose (q : Request) : Detached → Except Fault Value × Detached
  | ⟨g, sites, s⟩ =>
    match q.observed with
    | some v => (.ok v, ⟨g, sites, s⟩)
    | none   =>
      match q.family.sample q.params g with
      | .ok (v, g)    => (.ok v, ⟨g, sites, s⟩)
      | .error fault => (.error fault, ⟨g, sites, s⟩)

end Detached

/-- Plays a program without a trace. -/
def Program.runDetached : Program → Detached → Except Fault Value × Detached
  | .done v, d => (.ok v, d)
  | .fail e, d => (.error (.error e), d)
  | .choose q next, d =>
    match d.choose q with
    | (.ok v, d)             => runDetached (next (.ok v)) d
    | (.error (.error e), d) => runDetached (next (.error e)) d
    | (.error fault, d)      => (.error fault, d)
  | .enter id next, ⟨g, sites, s⟩ => runDetached (next (.ok ())) ⟨g, sites.enter id, s⟩
  | .leave id next, ⟨g, sites, s⟩ =>
    match sites.leave? id with
    | some sites => runDetached (next ()) ⟨g, sites, s⟩
    | none       => (.error (.defect (.siteMismatch sites.path id)), ⟨g, sites, s⟩)
  | .factor _ next, d => runDetached (next ()) d
  | .condition _ next, d => runDetached (next ()) d
  | .isActive next, d => runDetached (next false) d
  | .depth next, d => runDetached (next d.sites.depth) d
  | .isEnumerating next, d => runDetached (next d.session.enumerating) d
  | .read cell next, d => runDetached (next (d.session.readCell cell)) d
  | .write cell v next, ⟨g, sites, s⟩ => runDetached (next ()) ⟨g, sites, s.writeCell cell v⟩
  | .nested fixed inner next, ⟨g, sites, s⟩ =>
    let (u, s) := s.newTrace inner {} (.ofSeed nestedSeed)
    match u.update fixed s with
    | (.ok v, _, s)             => runDetached (next (.ok v)) ⟨g, sites, s⟩
    | (.error (.error e), _, s) => runDetached (next (.error e)) ⟨g, sites, s⟩
    | (.error fault, _, s)      => (.error fault, ⟨g, sites, s⟩)

end ProbTrace
