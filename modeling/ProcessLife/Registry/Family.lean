import ProcessLife.Registry.Basic

/-! Many forks in a row: a family of siblings, or a line of descendants. -/

namespace ProcessLife.Registry

structure Brood where
  count : Nat := 0
  first : Option Pid := none
  last : Option Pid := none
  /-- Why the row ended early. -/
  stopped : Option Errno := none
deriving DecidableEq

def Brood.add (b : Brood) (child : Pid) : Brood :=
  { b with count := b.count + 1, first := b.first <|> some child, last := some child }

/-- Forks `n` times or until a fork fails. The next parent is found from the last one and its
child. -/
def forkRow (next : Pid → Pid → Pid) : Nat → Pid → Brood → Operation Registry Event Brood
  | 0, _, brood => return brood
  | n + 1, parent, brood => do
    match ← Operation.attempt (fork parent) with
    | .ok child => forkRow next n (next parent child) (brood.add child)
    | .error e => return { brood with stopped := some e }

def forkMany (parent : Pid) (n : Nat) : Operation Registry Event Brood :=
  forkRow (fun parent _ => parent) n parent {}

def forkChain (ancestor : Pid) (n : Nat) : Operation Registry Event Brood :=
  forkRow (fun _ child => child) n ancestor {}

end ProcessLife.Registry
