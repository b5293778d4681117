import ProbTrace.Family.Kernel
import ProbTrace.Trace.Pass

/-!
# Proposal — changing one choice and running the program again

A proposal copies a trace, moves the value of one free choice by the kernel of its family, and runs
the program against the copy.  Choices that the run creates count towards the forward
log-probability, choices that it removes towards the reverse one.  Of the source only the generator
advances, by the word that seeds the copy.
-/

namespace ProbTrace

/-- A candidate trace, with the log-probabilities of getting there and back. -/
structure Proposal where
  trace   : Trace
  forward : Float
  reverse : Float

namespace Proposal

/-- A move of one choice: the record with its new value, and the scores of the move and of the
move back. -/
structure Move where
  record  : Record
  forward : Float
  reverse : Float

/-- Moves a record by the kernel of its family.  The value proposed and the scores of the step
are known, and reported, before the new value is scored under the record's own parameters. -/
def move (r : Record) (g : Generator) (s : Session) : Except Fault (Move × Generator) × Session :=
  match r.family.propose r.value r.params g with
  | .error fault => (.error fault, s)
  | .ok (target, g) =>
    match r.family.logKernel r.value target r.params,
        r.family.logKernel target r.value r.params with
    | .error e, _ => (.error (.error e), s)
    | _, .error e => (.error (.error e), s)
    | .ok forward, .ok reverse =>
      let s := s.report (.proposed r.address r.value target)
      match r.rescored target with
      | .error e => (.error (.error e), s)
      | .ok r    => (.ok (⟨r, forward, reverse⟩, g), s)

/-- Runs the program against the copy `t` in which the record of slot `i` has moved. -/
def rerun (t : Trace) (i : Nat) (m : Move) (fixed : Bool) (s : Session) :
    Except Fault Proposal × Session :=
  match { t with arena := t.arena.put i m.record }.update fixed s with
  | (.error fault, _, s) => (.error fault, s)
  | (.ok _, t, s)        => (.ok ⟨t, m.forward + t.added, m.reverse + t.dropped⟩, s)

end Proposal

/-- Proposes a change of the free choice at an address.  An address without a record and an
observed record are refused before anything is drawn. -/
def Trace.propose (t : Trace) (address : Address) (fixed : Bool) (s : Session) :
    Except Fault Proposal × Trace × Session :=
  match t.arena.slotOf? address with
  | none   => (.error (.error (.unknownAddress address)), t, s)
  | some i =>
    match t.arena.record? i with
    | none   => (.error (.error (.unknownAddress address)), t, s)
    | some r =>
      if r.conditioned then (.error (.error (.observed r.address)), t, s)
      else
        let (seed, generator) := t.generator.next
        let source := { t with generator }
        let (candidate, s) := s.copyTrace t
        match Proposal.move r (.ofSeed seed) s with
        | (.error fault, s)       => (.error fault, source, s)
        | (.ok (m, generator), s) =>
          let (answer, s) := Proposal.rerun { candidate with generator } i m fixed s
          (answer, source, s)

end ProbTrace
