import ProbTrace.Record

/-!
# Program — probabilistic programs as trees of requests

A program either has finished, with a value or an error, or makes a request and goes on with the
answer.  Choices and entered call sites may be refused, and then the program receives the error
and may go on in another way.  What the requests do is decided by whoever runs the tree: a pass
over a trace, or a run without one.

A program that depends only on the values of its choices makes none of the requests that ask about
the surroundings: whether a trace is being populated, how deep the call sites are, whether new
choices start at the front of their domain, and the cells.

Two things are left out.  A tree is well founded, so each way through it comes to an end; a program
with a loop that may go on for ever stands here only as its truncations, which give up after so many
rounds.  And of what a program may ask for in the middle of its own run, only the first update of a
new trace is here (`Program.nested`): a proposal or a search that a program begins, and a trace that
outlives the request, are not.
-/

namespace ProbTrace

/-- A probabilistic program, as a well-founded tree. -/
inductive Program where
  /-- The program has a value. -/
  | done (value : Value)
  /-- The program fails. -/
  | fail (error : Error)
  /-- Makes a random choice. -/
  | choose (request : Request) (next : Except Error Value → Program)
  /-- Enters a call site. -/
  | enter (id : String) (next : Except Error Unit → Program)
  /-- Leaves a call site. -/
  | leave (id : String) (next : Unit → Program)
  /-- Adds a weight to the joint log-probability. -/
  | factor (weight : Float) (next : Unit → Program)
  /-- Demands that something holds. -/
  | condition (holds : Bool) (next : Unit → Program)
  /-- Asks whether a trace is being populated. -/
  | isActive (next : Bool → Program)
  /-- Asks for the number of open call sites. -/
  | depth (next : Nat → Program)
  /-- Asks whether new choices start at the front of their domain. -/
  | isEnumerating (next : Bool → Program)
  /-- Asks for the value of a cell. -/
  | read (cell : String) (next : Option Value → Program)
  /-- Sets a cell. -/
  | write (cell : String) (value : Value) (next : Unit → Program)
  /-- Makes a trace of a program of its own and updates it once.  No other operation on a trace can
  be asked for. -/
  | nested (fixed : Bool) (inner : Program) (next : Except Error Value → Program)

instance : Inhabited Program := ⟨.fail default⟩

/-- A part of a program that ends in an `α` or an error: it says how the whole goes on. -/
def Computation (α : Type) : Type := (Except Error α → Program) → Program

namespace Computation

/-- The whole program that ends with this computation. -/
def program (c : Computation Value) : Program :=
  c fun
    | .ok v    => .done v
    | .error e => .fail e

instance : Monad Computation where
  pure a k := k (.ok a)
  bind c f k := c fun
    | .ok a    => f a k
    | .error e => k (.error e)

instance : MonadExceptOf Error Computation where
  throw e k := k (.error e)
  tryCatch c handler k := c fun
    | .ok a    => k (.ok a)
    | .error e => handler e k

instance : LawfulMonad Computation :=
  LawfulMonad.mk' Computation
    (fun c => by
      funext k
      refine congrArg c (funext fun answer => ?_)
      cases answer <;> rfl)
    (fun _ _ => rfl)
    (fun c _ _ => by
      funext k
      refine congrArg c (funext fun answer => ?_)
      cases answer <;> rfl)

/-- Makes a choice: structural or not, observed or not. -/
def choice (request : Request) : Computation Value := fun k => .choose request k

/-- A choice whose value no other choice depends on for its existence. -/
def sample (family : Family) (params : List Float) : Computation Value :=
  choice { family, params }

/-- A choice whose value decides which other choices exist. -/
def structural (family : Family) (params : List Float) : Computation Value :=
  choice { family, params, structural := true }

/-- A choice that is observed to take a value. -/
def observe (family : Family) (params : List Float) (value : Value) : Computation Value :=
  choice { family, params, observed := some value }

/-- Enters a call site. -/
def enter (id : String) : Computation Unit := fun k => .enter id k

/-- Leaves a call site. -/
def leave (id : String) : Computation Unit := fun k => .leave id fun _ => k (.ok ())

/-- Runs `body` inside the call site `id`, and leaves it however `body` ends. -/
def call {α : Type} (id : String) (body : Computation α) : Computation α := fun k =>
  .enter id fun
    | .error e => k (.error e)
    | .ok ()   => body fun answer => .leave id fun _ => k answer

/-- Adds a weight to the joint log-probability. -/
def factor (weight : Float) : Computation Unit := fun k => .factor weight fun _ => k (.ok ())

/-- Demands that something holds. -/
def condition (holds : Bool) : Computation Unit := fun k => .condition holds fun _ => k (.ok ())

/-- Whether a trace is being populated. -/
def isActive : Computation Bool := fun k => .isActive fun b => k (.ok b)

/-- The number of open call sites. -/
def depth : Computation Nat := fun k => .depth fun n => k (.ok n)

/-- Whether new choices start at the front of their domain. -/
def isEnumerating : Computation Bool := fun k => .isEnumerating fun b => k (.ok b)

/-- The value of a cell. -/
def read (cell : String) : Computation (Option Value) := fun k => .read cell fun v => k (.ok v)

/-- Sets a cell. -/
def write (cell : String) (v : Value) : Computation Unit := fun k =>
  .write cell v fun _ => k (.ok ())

/-- Runs a program of its own in a new trace, and takes its value. -/
def nested (fixed : Bool) (inner : Computation Value) : Computation Value := fun k =>
  .nested fixed inner.program k

/-- An answer that is already known. -/
def ofExcept {α : Type} (answer : Except Error α) : Computation α := fun k => k answer

end Computation

end ProbTrace
