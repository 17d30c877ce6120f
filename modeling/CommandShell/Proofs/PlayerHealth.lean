import CommandShell.Demo.Player
import CommandShell.Proofs.HostState
import CommandShell.Proofs.PrintedIntegers

/-!
# `CommandShell.Proofs.PlayerHealth` — the health of the player

Whatever happens to the player of the demo host, its health is a number from zero to a hundred: all
members bring what they store into this range. Before that, healing adds in 64 bits. No amount is too
small for that, but one may be too large. In a build for release the sum then wraps around to a negative
number, and the player is left without any health; in a build with checks the program ends. The only
amount that an argument is converted to and that can be too large is the greatest integer, which stands
for everything beyond the range.

## Contents
- `Demo.Player.Healthy`, with `Demo.toInt_clampHealth_add`, the sum that healing stores.
- `Demo.Overflow.add?_of_lt` and `Demo.Overflow.add?_panics_of_le`, sums with and without checks.
- `Numeral.toInt_le_of_toInt64?`, the integers that numerals are converted to.
- `Demo.Player.keepsHost_table`, that no member leaves the range, and `Shell.hosts_bindDemo`.
- `Demo.Player.Healing`, with `Shell.heal_in_integers_iff` and a player that is healed to death.
-/

namespace CommandShell

open Eval

/-! ## Healths -/

namespace Demo

/-- The health is in its range. -/
def Player.Healthy (p : Player) : Prop :=
  0 ≤ p.health.toInt ∧ p.health.toInt ≤ 100

/-- The health is in its range, and a program whose sums wrap around has not ended. -/
def Player.Kept (overflow : Overflow) (p : Player) : Prop :=
  p.Healthy ∧ (overflow = .wraps → p.hasPanicked = false)

theorem toInt_clampHealth (n : Int64) : (clampHealth n).toInt = min 100 (max 0 n.toInt) := by
  have hzero : (0 : Int64).toInt = 0 := rfl
  have hmost : maxHealth.toInt = 100 := rfl
  unfold clampHealth
  simp only [Int64.lt_iff_toInt_lt, hzero, hmost]
  split
  · omega
  · split
    · omega
    · omega

theorem range_clampHealth (n : Int64) : 0 ≤ (clampHealth n).toInt ∧ (clampHealth n).toInt ≤ 100 := by
  rw [toInt_clampHealth]
  omega

/-- A sum that does not fit in 64 bits wraps around below zero, since it is not far beyond the greatest
    integer. -/
theorem toInt_clampHealth_add {p : Player} (hp : p.Healthy) (amount : Int64) :
    (clampHealth (p.health + amount)).toInt =
      if p.health.toInt + amount.toInt < 2 ^ 63 then min 100 (max 0 (p.health.toInt + amount.toInt))
      else 0 := by
  obtain ⟨hleast, hmost⟩ := hp
  have hamountLeast := amount.le_toInt
  have hamountMost := amount.toInt_lt
  rw [toInt_clampHealth, Int64.toInt_add]
  split
  · rw [Int.bmod_eq_of_le (by omega) (by omega)]
  · have hwrapped : (p.health.toInt + amount.toInt).bmod (2 ^ 64) =
        p.health.toInt + amount.toInt - 2 ^ 64 := by
      rw [← Int.sub_bmod_right, Int.bmod_eq_of_le (by omega) (by omega)]
      rfl
    rw [hwrapped]
    omega

/-! ## Sums -/

/-- A sum that fits is the same in every build. -/
theorem Overflow.add?_of_lt (overflow : Overflow) {p : Player} (hp : p.Healthy) {amount : Int64}
    (hfits : p.health.toInt + amount.toInt < 2 ^ 63) :
    overflow.add? p.health amount = some (p.health + amount) := by
  have hamountLeast := amount.le_toInt
  have hsum : (p.health + amount).toInt = p.health.toInt + amount.toInt := by
    rw [Int64.toInt_add, Int.bmod_eq_of_le (by have := hp.1; omega) (by omega)]
  cases overflow with
  | wraps => rfl
  | panics => exact if_pos hsum

/-- A sum that does not fit is none where sums are checked. -/
theorem Overflow.add?_panics_of_le {a b : Int64} (hlarge : 2 ^ 63 ≤ a.toInt + b.toInt) :
    Overflow.panics.add? a b = none := by
  have hmost := (a + b).toInt_lt
  exact if_neg (by omega)

end Demo

/-! ## Amounts -/

/-- Between the numbers of floating point and the end of the range there is a gap, and what is beyond the
    end is brought back to it. -/
theorem Numeral.toInt_le_of_toInt64? {n : Numeral} {k : Int64} (h : n.toInt64? = some k) :
    k.toInt ≤ 2 ^ 63 - 2 ^ 10 ∨ k = Int64.maxValue := by
  cases n with
  | infinity negative => cases h
  | notANumber => cases h
  | decimal negative digits exponent =>
      unfold toInt64? at h
      dsimp only at h
      split at h
      · cases h
        have hfits := GridPoint.fitsBits_floor_ofDecimal digits exponent
        generalize (GridPoint.ofDecimal digits exponent).floor = x at hfits
        -- Numbers this long end in ten zeros.
        have hzeros (hlong : 2 ^ 62 ≤ x) := hfits.two_pow_dvd (k := 9) hlong
        rw [← Int64.toInt_inj, Int64.toInt_maxValue, toInt_saturate]
        split
        · omega
        · omega
      · cases h

theorem toInt_le_of_parseInt {text : String} {amount : Int64} (h : parseInt text = .ok (.int amount)) :
    amount.toInt ≤ 2 ^ 63 - 2 ^ 10 ∨ amount = Int64.maxValue := by
  unfold parseInt at h
  cases hread : (numeral? text).bind Numeral.toInt64? with
  | none =>
      rw [hread] at h
      cases h
  | some k =>
      rw [hread] at h
      cases h
      obtain ⟨n, -, hn⟩ := Option.bind_eq_some_iff.mp hread
      exact Numeral.toInt_le_of_toInt64? hn

namespace Demo
namespace Player

/-! ## Members -/

variable {overflow : Overflow}

/-- Healing stores what is in the range, or ends the program if its sums are checked. -/
theorem keepsHost_heal (args : Args) (seen : Prop) :
    ((heal overflow .whole).body args).toAction.KeepsHost (Kept overflow) seen := by
  intro s
  apply Action.keepsHost_lift
  intro amount _
  show ((storeHealth .whole (overflow.add? s.memory.host.health amount)).toAction).KeepsHost _ _
  cases hsum : overflow.add? s.memory.host.health amount with
  | some sum => exact ⟨fun _ m hm => ⟨range_clampHealth sum, hm.2⟩, trivial⟩
  | none =>
      -- Only a checked sum can be missing.
      refine ⟨fun _ m hm => ⟨hm.1, fun hwraps => ?_⟩, trivial⟩
      rw [hwraps] at hsum
      cases hsum

theorem keepsHost_teleport (args : Args) (seen : Prop) :
    ((teleport .whole).body args).toAction.KeepsHost (Kept overflow) seen := by
  apply Action.keepsHost_lift
  intro position _
  exact ⟨fun _ _ hm => hm, trivial⟩

theorem keepsHost_despawn (args : Args) (seen : Prop) :
    ((despawn .whole).body args).toAction.KeepsHost (Kept overflow) seen :=
  ⟨fun _ _ hm => hm, trivial⟩

/-- No member takes the health out of its range. -/
theorem keepsHost_table : (table overflow .whole).KeepsHost (Kept overflow) where
  methods := by
    intro entry hentry args seen
    simp only [table, List.mem_cons, List.not_mem_nil, or_false] at hentry
    rcases hentry with rfl | rfl | rfl
    · exact keepsHost_heal args seen
    · exact keepsHost_teleport args seen
    · exact keepsHost_despawn args seen
  fields := by
    intro entry hentry set hset v m m' hm hstored
    simp only [table, List.mem_cons, List.not_mem_nil, or_false] at hentry
    -- The health is the only field that can be set.
    rcases hentry with rfl | rfl | rfl
    · cases hset
      dsimp only at hstored
      split at hstored
      · cases hstored
        exact ⟨range_clampHealth _, hm.2⟩
      · cases hstored
    · cases hset
    · cases hset

end Player

theorem keepsHost_arithmetic {σ : Type} (I : σ → Prop) :
    ∀ entry ∈ (arithmetic : List (String × Binding σ)), entry.2.KeepsHost I := by
  have hcommand (description : String) (op : Float → Float → Float) :
      (arithmeticCommand description op : Binding σ).KeepsHost I := by
    intro args seen
    apply Action.keepsHost_lift
    intro a _
    apply Action.keepsHost_lift
    intro b _
    trivial
  intro entry hentry
  simp only [arithmetic, List.mem_cons, List.not_mem_nil, or_false] at hentry
  rcases hentry with rfl | rfl | rfl
  · exact hcommand _ _
  · exact hcommand _ _
  · exact hcommand _ _

end Demo

/-! ## The demo host -/

namespace Shell

/-- The shell of the demo host, whose player is well when it has started. -/
theorem hosts_bindDemo (overflow : Demo.Overflow) (config : Config) :
    ((bindDemo overflow .whole).exec (start config {})).2.Hosts (Demo.Player.Kept overflow) := by
  have hstart : (start config ({} : Demo.Player)).Hosts (Demo.Player.Kept overflow) :=
    hosts_start config ⟨⟨by decide, by decide⟩, fun _ => rfl⟩
  have harithmetic := Demo.keepsHost_arithmetic (Demo.Player.Kept overflow)
  rcases runs_bind.mp (runs_self (bindDemo overflow .whole) (start config ({} : Demo.Player))) with
    ⟨tr, a, u, tr', hcommands, hmembers, -⟩ | ⟨e, hcommands, -⟩
  · have hu := hstart.forM_bind harithmetic hcommands
    obtain ⟨outcome, hmanifest, -⟩ := runs_discard.mp hmembers
    exact hu.bindManifest Demo.Player.keepsHost_table hmanifest
  · exact hstart.forM_bind harithmetic hcommands

end Shell

/-! ## Healing -/

namespace Demo

/-- How healing a player by an amount ends: with this answer, and with this player. -/
structure Player.Healing (overflow : Overflow) (p : Player) (amount : Int64)
    (answer : Except ShellError (Option Value)) (q : Player) : Prop where
  healthy : q.Healthy
  /-- The health that is stored and answered is the one of the integers exactly if the sum fits. -/
  integers_iff : (q = { p with health := q.health } ∧ answer = .ok (some (.int q.health)) ∧
      q.health.toInt = min 100 (max 0 (p.health.toInt + amount.toInt))) ↔
    p.health.toInt + amount.toInt < 2 ^ 63
  wrapped : overflow = .wraps → 2 ^ 63 ≤ p.health.toInt + amount.toInt →
    q = { p with health := 0 } ∧ answer = .ok (some (.int 0))
  panicked : overflow = .panics → 2 ^ 63 ≤ p.health.toInt + amount.toInt →
    q = { p with hasPanicked := true } ∧ ∃ e, answer = .error e
  /-- Nobody is hurt by an amount from zero on, unless the sum has wrapped around. -/
  lowered_iff : 0 ≤ amount.toInt →
    (q.health.toInt < p.health.toInt ↔ overflow = .wraps ∧ 2 ^ 63 ≤ p.health.toInt + amount.toInt)
  /-- Of the amounts that texts are converted to, only the greatest can be too large. -/
  fits_iff : ∀ text, parseInt text = .ok (.int amount) →
    (p.health.toInt + amount.toInt < 2 ^ 63 ↔ amount = Int64.maxValue → p.health = 0)

namespace Player

variable {p : Player} {overflow : Overflow} {amount : Int64}

/-- Between the amounts of texts there is a gap just below the greatest, wide enough for any health. -/
theorem fits_iff_of_parseInt (hp : p.Healthy) {text : String}
    (htext : parseInt text = .ok (.int amount)) :
    p.health.toInt + amount.toInt < 2 ^ 63 ↔ amount = Int64.maxValue → p.health = 0 := by
  have hgap := toInt_le_of_parseInt htext
  have hzero : (0 : Int64).toInt = 0 := rfl
  have hamountMost := amount.toInt_lt
  obtain ⟨hleast, hmost⟩ := hp
  rw [← Int64.toInt_inj, Int64.toInt_maxValue] at hgap
  rw [← Int64.toInt_inj, ← Int64.toInt_inj, Int64.toInt_maxValue, hzero]
  omega

/-- A sum is stored if it fits, and also if it wraps around. -/
theorem healing_of_stored (hp : p.Healthy)
    (hstored : p.health.toInt + amount.toInt < 2 ^ 63 ∨ overflow = .wraps) :
    p.Healing overflow amount (.ok (some (.int (clampHealth (p.health + amount)))))
      { p with health := clampHealth (p.health + amount) } := by
  have hadd := toInt_clampHealth_add hp amount
  have hzero : (0 : Int64).toInt = 0 := rfl
  have hwrapped (hlarge : 2 ^ 63 ≤ p.health.toInt + amount.toInt) :
      clampHealth (p.health + amount) = 0 := by
    rw [← Int64.toInt_inj, hadd, if_neg (by omega), hzero]
  obtain ⟨hleast, hmost⟩ := hp
  have hamountMost := amount.toInt_lt
  constructor
  case healthy => exact range_clampHealth _
  case integers_iff =>
    dsimp only
    rw [hadd]
    constructor
    · rintro ⟨-, -, hsame⟩
      split at hsame
      · assumption
      · omega
    · exact fun hfits => ⟨rfl, rfl, if_pos hfits⟩
  case wrapped =>
    intro _ hlarge
    rw [hwrapped hlarge]
    exact ⟨rfl, rfl⟩
  case panicked =>
    rintro rfl hlarge
    rcases hstored with hfits | hwraps
    · omega
    · cases hwraps
  case lowered_iff =>
    intro hamount
    dsimp only
    rw [hadd]
    split
    · omega
    · have hwraps := hstored.resolve_left (by assumption)
      simp only [hwraps, true_and]
      omega
  case fits_iff => exact fun _ => fits_iff_of_parseInt ⟨hleast, hmost⟩

/-- Nothing is stored of a sum that ends the program. -/
theorem healing_of_panicked (hp : p.Healthy) (hlarge : 2 ^ 63 ≤ p.health.toInt + amount.toInt)
    (e : ShellError) : p.Healing .panics amount (.error e) { p with hasPanicked := true } where
  healthy := hp
  integers_iff := by
    constructor
    · rintro ⟨-, hanswer, -⟩
      cases hanswer
    · omega
  wrapped := by
    intro hwraps
    cases hwraps
  panicked _ _ := ⟨rfl, e, rfl⟩
  lowered_iff _ := by simp
  fits_iff _ := fits_iff_of_parseInt hp

end Player
end Demo

/-- Healing ends so in whatever state it is done: the sum is stored or the program ends. -/
theorem Demo.Player.exists_healing (overflow : Demo.Overflow) {s : Shell Demo.Player}
    (hs : s.memory.host.Healthy) (nested : String → Eval Demo.Player Unit) {args : Args} {amount : Int64}
    (hamount : args.int 0 = .ok amount) : ∃ answer q, s.memory.host.Healing overflow amount answer q ∧
      (Eval.perform nested ((Demo.Player.heal overflow .whole).body args).toAction).exec s =
        (answer, { s with memory := ⟨s.memory.cells, q⟩ }) := by
  -- The command up to the sum, which decides how it goes on.
  have hbody : (Eval.perform nested ((heal overflow .whole).body args).toAction).exec s =
      (Eval.perform nested
        (storeHealth .whole (overflow.add? s.memory.host.health amount)).toAction).exec s := by
    show (Eval.perform nested ((liftM (args.int 0) >>= _ : Script Demo.Player (Option Value)) _)).exec s = _
    rw [hamount]
    rfl
  rw [hbody]
  by_cases hstored : s.memory.host.health.toInt + amount.toInt < 2 ^ 63 ∨ overflow = .wraps
  · have hsum : overflow.add? s.memory.host.health amount = some (s.memory.host.health + amount) := by
      rcases hstored with hfits | rfl
      · exact overflow.add?_of_lt hs hfits
      · rfl
    rw [hsum]
    exact ⟨_, _, healing_of_stored hs hstored, rfl⟩
  · obtain ⟨hlarge, hpanics⟩ := not_or.mp hstored
    obtain rfl : overflow = .panics := by
      cases overflow with
      | wraps => exact absurd rfl hpanics
      | panics => rfl
    rw [Overflow.add?_panics_of_le (by omega)]
    exact ⟨_, _, healing_of_panicked hs (by omega) _, rfl⟩

/-- Whatever a host that leaves the player alone does with the demo shell, which lines it submits and what
    it binds: at every moment the health of the player is in its range, and healing at this moment ends
    with the health that it stores. That is the sum of the integers, cut off at the ends of the range,
    exactly if the sum fits in 64 bits. If it does not, there is no health left where sums wrap around,
    and where they are checked the program ends; it never does so elsewhere. -/
theorem Shell.heal_in_integers_iff (overflow : Demo.Overflow) (config : Config)
    {program : Action Demo.Player} (hprogram : program.LeavesHost) {s : Shell Demo.Player}
    (hs : s ∈ (serve program).visits ((bindDemo overflow .whole).exec (start config {})).2) :
    s.memory.host.Healthy ∧ (overflow = .wraps → s.memory.host.hasPanicked = false) ∧
      ∀ (nested : String → Eval Demo.Player Unit) (args : Args) (amount : Int64),
        args.int 0 = .ok amount → ∃ answer q, s.memory.host.Healing overflow amount answer q ∧
          (Eval.perform nested ((Demo.Player.heal overflow .whole).body args).toAction).exec s =
            (answer, { s with memory := ⟨s.memory.cells, q⟩ }) := by
  obtain ⟨hhealthy, hrunning⟩ := ((hosts_bindDemo overflow config).serve (hprogram _) s hs).host
  refine ⟨hhealthy, hrunning, ?_⟩
  intro nested args amount hamount
  exact Demo.Player.exists_healing overflow hhealthy nested hamount

/-- The demo host as it starts without a configuration file. -/
def Shell.demo (overflow : Demo.Overflow) : Shell Demo.Player :=
  ((bindDemo overflow .whole).exec (start {} {})).2

/-- A player whose health has been set to 40 has 50 when it is healed by the default amount. -/
theorem Shell.heal_in_integers_fifty :
    ∃ s ∈ (serve (Action.submitAll ["hp 40"])).visits (demo .panics),
      s.memory.host.health = 40 ∧ ∃ healed : Int64, healed.toInt = 50 ∧
        (Eval.perform (fun _ => pure ())
          ((Demo.Player.heal .panics .whole).body ⟨[.int 10]⟩).toAction).exec s =
          (.ok (some (.int healed)),
            { s with memory := ⟨s.memory.cells, { s.memory.host with health := healed }⟩ }) := by
  let s := ((serve (Action.submitAll ["hp 40"])).exec (demo .panics)).2
  have hs : s ∈ (serve (Action.submitAll ["hp 40"])).visits (demo .panics) :=
    mem_visits.mpr (.inr (.inr rfl))
  have hhealth : s.memory.host.health = 40 := by decide +kernel
  obtain ⟨-, -, hheal⟩ := heal_in_integers_iff .panics {} (Action.leavesHost_submitAll ["hp 40"]) hs
  obtain ⟨answer, q, hhealing, hexec⟩ := hheal (fun _ => pure ()) ⟨[.int 10]⟩ 10 rfl
  have hsum := hhealing.integers_iff
  rw [hhealth] at hsum
  obtain ⟨hq, rfl, hfifty⟩ := hsum.mpr (by decide)
  refine ⟨s, hs, hhealth, q.health, hfifty, ?_⟩
  rw [← hq]
  exact hexec

/-- The player is healed by the greatest integer. That leaves it nothing of a full health, or ends the
    program before any health is stored. -/
theorem Shell.heal_overflows :
    (demo .wraps).memory.host.health = 100 ∧
      ((eval "heal 9223372036854775807").run (demo .wraps)).1 = true ∧
      ((eval "heal 9223372036854775807").run (demo .wraps)).2.memory.host.health = 0 ∧
    (demo .panics).memory.host.health = 100 ∧
      ((eval "heal 9223372036854775807").run (demo .panics)).1 = false ∧
      ((eval "heal 9223372036854775807").run (demo .panics)).2.memory.host.hasPanicked = true := by
  decide +kernel

end CommandShell
