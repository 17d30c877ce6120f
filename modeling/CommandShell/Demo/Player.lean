import CommandShell.Manifest.Basic

/-!
# `CommandShell.Demo.Player` — a small host to try the shell with

The demo host offers arithmetic and one object, a player with health and a position. Its one sum of
integers may not fit in 64 bits. What becomes of it then depends on how the program has been built.

## Contents
- `Overflow` and `Overflow.add?`, sums of integers in a build with or without checks.
- `Player`, and `Part`, where a larger host keeps it.
- `arithmetic`, the commands on numbers.
- `Player.table` and `Player.manifest`, the members of the player and what they are bound to.
- `Shell.bindDemo`, which binds all of them.
-/

namespace CommandShell
namespace Demo

/-! ## Sums -/

/-- What becomes of a sum that does not fit in 64 bits. -/
inductive Overflow where
  /-- It wraps around, as in a build for release. -/
  | wraps
  /-- It ends the program, as in a build with checks. -/
  | panics
deriving DecidableEq, Repr

/-- The sum of two integers, unless it ends the program. -/
def Overflow.add? : Overflow → Int64 → Int64 → Option Int64
  | .wraps, a, b => some (a + b)
  | .panics, a, b => if (a + b).toInt = a.toInt + b.toInt then some (a + b) else none

/-! ## State -/

/-- A part of the state of a host. -/
structure Part (σ τ : Type) where
  get : σ → τ
  set : τ → σ → σ

/-- The state that is its own only part. -/
def Part.whole {σ : Type} : Part σ σ where
  get s := s
  set s _ := s

namespace Part

variable {σ τ : Type}

/-- The part as it is in the memory of a shell. -/
def read (part : Part σ τ) (m : Memory σ) : τ :=
  part.get m.host

/-- The memory with the part changed. -/
def modify (part : Part σ τ) (f : τ → τ) (m : Memory σ) : Memory σ :=
  { m with host := part.set (f (part.get m.host)) m.host }

end Part

/-- The greatest health of a player. -/
def maxHealth : Int64 := 100

/-- The object of the demo host. -/
structure Player where
  isAlive : Bool := true
  health : Int64 := maxHealth
  /-- Three coordinates. -/
  position : List Float := [0, 0, 0]
  /-- Whether a sum has ended the program. Nothing can be seen of a host after that. -/
  hasPanicked : Bool := false

/-- A health brought into the range from zero to the greatest. -/
def clampHealth (n : Int64) : Int64 :=
  if n < 0 then 0 else if maxHealth < n then maxHealth else n

/-! ## Arithmetic -/

/-- A command that answers the result of an operation on two numbers. -/
def arithmeticCommand {σ : Type} (description : String) (op : Float → Float → Float) : Binding σ :=
  (Binding.ofScript fun args => do
    return some (.float (op (← args.float 0) (← args.float 1))))
  |>.addParams [.required "a" .float, .required "b" .float]
  |>.withDescription description

def arithmetic {σ : Type} : List (String × Binding σ) :=
  [("add", arithmeticCommand "Add two numbers" (· + ·)),
   ("sub", arithmeticCommand "Subtract b from a" (· - ·)),
   ("mul", arithmeticCommand "Multiply two numbers" (· * ·))]

/-! ## Members of the player -/

namespace Player

variable {σ : Type}

/-- Stores a sum as the health and answers what has been stored. Without a sum the program ends; the
    failure is for nobody, it only keeps the rest of the command from running. -/
def storeHealth (part : Part σ Player) : Option Int64 → Script σ (Option Value)
  | some sum => do
      let health := clampHealth sum
      Script.update (part.modify fun p => { p with health })
      return some (.int health)
  | none => do
      Script.update (part.modify fun p => { p with hasPanicked := true })
      Script.fail (.command "attempt to add with overflow")

def heal (overflow : Overflow) (part : Part σ Player) : HostMethod σ where
  params := [(Param.optional "amount" .int).withDefault (.int 10)]
  body args := do
    let health := (part.read (← Script.view).memory).health
    storeHealth part (overflow.add? health (← args.int 0))

def teleport (part : Part σ Player) : HostMethod σ where
  params := [.required "to" .vec3]
  body args := do
    let position ← args.vector 3 0
    Script.update (part.modify fun p => { p with position })
    return none

def despawn (part : Part σ Player) : HostMethod σ where
  body _ := do
    Script.update (part.modify fun p => { p with isAlive := false })
    Script.emit .normal "player despawned"
    return none

def healthField (part : Part σ Player) : HostField σ where
  type := .int
  get m := .int (part.read m).health
  set? := some fun v m =>
    match v.int? with
    | some n => .ok (part.modify (fun p => { p with health := clampHealth n }) m)
    | none => .error (.command "health must be an int")

def positionField (part : Part σ Player) : HostField σ where
  type := .vec3
  get m := .vector (part.read m).position

def maxHealthField : HostField σ where
  type := .int
  get _ := .int maxHealth

/-- The members of the player. -/
def table (overflow : Overflow) (part : Part σ Player) : HostTable σ where
  objects := [("player", fun m => (part.read m).isAlive)]
  fields :=
    [("player.health", healthField part), ("player.position", positionField part),
     ("player.max_health", maxHealthField)]
  methods :=
    [("player.heal", heal overflow part), ("player.teleport", teleport part),
     ("player.despawn", despawn part)]

/-- What the members of the player are bound to. -/
def manifest : Manifest where
  commandEntries :=
    [{ name := "heal", method := "player.heal", description? := some "Restore player health" },
     { name := "teleport", method := "player.teleport", description? := some "Move the player" },
     { name := "despawn", method := "player.despawn",
       description? := some "Remove the player from the world" }]
  variableEntries :=
    [{ name := "hp", field := "player.health", description? := some "Player health" },
     { name := "pos", field := "player.position", isReadonly := true,
       description? := some "Player position" },
     { name := "max_hp", field := "player.max_health", isReadonly := true }]

end Player
end Demo

/-- Binds the arithmetic commands and the members of the player. -/
def Shell.bindDemo {σ : Type} (overflow : Demo.Overflow) (part : Demo.Part σ Demo.Player) :
    Eval σ Unit := do
  Demo.arithmetic.forM fun (name, b) => do
    set (← (← get).bind name b)
  discard (Shell.bindManifest Demo.Player.manifest (Demo.Player.table overflow part))

end CommandShell
