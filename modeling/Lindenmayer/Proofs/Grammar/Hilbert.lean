import Lindenmayer.Grammar.Catalog
import Lindenmayer.Proofs.Grammar.Unbranched
import Mathlib.Data.Finset.Prod
import Mathlib.Data.Int.Interval

/-! The Hilbert curve. Its two symbols stand for two paths that mirror each other, and four copies of
them, one for each quadrant, make the path of the next order. As many points as a square holds fill it
only if no point comes twice. -/

namespace Lindenmayer

/-- As many points as there are in a square, and all of them. -/
lemma nodup_of_square {ps : List (Point ℤ)} {edge : ℕ} (hcount : ps.length = edge ^ 2)
    (hall : ∀ p, p ∈ ps ↔ (0 ≤ p.1 ∧ p.1 < edge) ∧ 0 ≤ p.2 ∧ p.2 < edge) : ps.Nodup := by
  have hsquare : ps.toFinset = Finset.Ico 0 (edge : ℤ) ×ˢ Finset.Ico 0 (edge : ℤ) := by
    ext p
    simp [hall]
  rw [← Multiset.coe_nodup, ← Multiset.toFinset_card_eq_card_iff_nodup]
  change ps.toFinset.card = ps.length
  rw [hsquare, hcount, Finset.card_product, Int.card_Ico, sub_zero, Int.toNat_natCast, pow_two]

namespace Stance

variable {s : Stance} {c : Command} {cs ds : List Command}

lemma stops_cons (hc : c ≠ .forward) : s.stops (c :: cs) = (s.obey c).stops cs := by
  rw [stops, legs, if_neg hc, List.nil_append, stops]
  cases c with
  | forward => exact absurd rfl hc
  | left | right | save | restore | idle => rfl

lemma stops_concat (hc : c ≠ .forward) : s.stops (cs ++ [c]) = s.stops cs := by
  rw [stops, legs_append, legs, if_neg hc]
  simp [legs, stops]

lemma stops_forward (s : Stance) (cs ds : List Command) :
    s.stops (cs ++ .forward :: ds) = s.stops cs ++ ((s.follow cs).obey .forward).stops ds := by
  rw [stops, legs_append, legs, if_pos rfl]
  simp [stops]

lemma stops_eq_map (s : Stance) (cs : List Command) :
    s.stops cs = (origin.stops cs).map fun z => s.place + direction s.heading * z := by
  have hlegs := carry_legs s origin cs
  rw [carry_origin] at hlegs
  rw [stops, hlegs, stops, List.map_cons, List.map_map, List.map_map]
  simp only [origin, mul_zero, add_zero]
  rfl

lemma mem_stops {z : GaussianInt} :
    z ∈ s.stops cs ↔ direction (-s.heading) * (z - s.place) ∈ origin.stops cs := by
  have hinv : direction (-s.heading) * direction s.heading = 1 := by
    rw [← direction_add, neg_add_cancel, direction_zero]
  rw [stops_eq_map, List.mem_map]
  constructor
  · rintro ⟨y, hy, rfl⟩
    rwa [add_sub_cancel_left, ← mul_assoc, hinv, one_mul]
  · intro hz
    refine ⟨_, hz, ?_⟩
    rw [← mul_assoc, mul_comm (direction s.heading), hinv, one_mul, add_sub_cancel]

lemma length_stops (s : Stance) (cs : List Command) :
    (s.stops cs).length = (origin.stops cs).length := by
  rw [stops_eq_map, List.length_map]

def bend (side : ℤˣ) : Command := if side = 1 then .left else .right

lemma bend_ne_forward (side : ℤˣ) : bend side ≠ .forward := by
  unfold bend
  split <;> exact nofun

lemma obey_bend (s : Stance) (side : ℤˣ) : s.obey (bend side) = ⟨s.place, s.heading + side⟩ := by
  rcases Int.units_eq_one_or side with rfl | rfl <;> rfl

lemma direction_side (side : ℤˣ) : direction side = ⟨0, side⟩ := by
  rcases Int.units_eq_one_or side with rfl | rfl
  · exact direction_one
  · exact direction_neg_one

lemma direction_neg_side (side : ℤˣ) : direction (-side) = ⟨0, -side⟩ := by
  simpa only [Units.val_neg] using direction_side (-side)

/-- A path over all points of a square on one side of the first axis, each once, that ends at the far
corner on the axis. -/
structure Fills (side : ℤˣ) (edge : ℤ) (cs : List Command) : Prop where
  follow : origin.follow cs = ⟨⟨edge - 1, 0⟩, 0⟩
  length : ((origin.stops cs).length : ℤ) = edge ^ 2
  mem : ∀ z, z ∈ origin.stops cs ↔
    (0 ≤ z.re ∧ z.re < edge) ∧ 0 ≤ side * z.im ∧ side * z.im < edge

/-- Through the four quadrants: the first and the last one by `bs`, turned, and those between by `as`. -/
def quadrants (side : ℤˣ) (as bs : List Command) : List Command :=
  (bend side :: bs) ++ .forward :: (bend (-side) :: as) ++ .forward :: (as ++ [bend (-side)]) ++
    .forward :: (bs ++ [bend side])

lemma Fills.quadrants {side : ℤˣ} {edge : ℤ} {as bs : List Command} (ha : Fills side edge as)
    (hb : Fills (-side) edge bs) : Fills side (2 * edge) (quadrants side as bs) := by
  have hfollow (s : Stance) {side : ℤˣ} {cs : List Command} (h : Fills side edge cs) :
      s.follow cs = ⟨s.place + direction s.heading * ⟨edge - 1, 0⟩, s.heading⟩ := by
    rw [follow_eq_carry, h.follow, carry, add_zero]
  -- Where each quadrant is entered, and where the last one is left.
  have h₁ : origin.obey (bend side) = ⟨0, side⟩ := by simp [obey_bend, origin]
  have h₂ : (((⟨0, side⟩ : Stance).follow bs).obey .forward).obey (bend (-side)) =
      ⟨⟨0, side * edge⟩, 0⟩ := by
    rw [hfollow _ hb, obey_bend]
    ext <;> simp [obey, direction_side]
    ring
  have h₃ : ((⟨⟨0, side * edge⟩, 0⟩ : Stance).follow as).obey .forward =
      ⟨⟨edge, side * edge⟩, 0⟩ := by
    rw [hfollow _ ha]
    ext <;> simp [obey]
  have h₄ : (((⟨⟨edge, side * edge⟩, 0⟩ : Stance).follow as).obey (bend (-side))).obey .forward =
      ⟨⟨2 * edge - 1, side * (edge - 1)⟩, -side⟩ := by
    rw [hfollow _ ha, obey_bend]
    ext <;> simp [obey, direction_neg_side] <;> ring
  have h₅ : ((⟨⟨2 * edge - 1, side * (edge - 1)⟩, -side⟩ : Stance).follow bs).obey (bend side) =
      ⟨⟨2 * edge - 1, 0⟩, 0⟩ := by
    rw [hfollow _ hb, obey_bend]
    ext <;> simp [direction_neg_side]
  have hstops : origin.stops (Stance.quadrants side as bs) =
      (⟨0, side⟩ : Stance).stops bs ++ (⟨⟨0, side * edge⟩, 0⟩ : Stance).stops as ++
        (⟨⟨edge, side * edge⟩, 0⟩ : Stance).stops as ++
        (⟨⟨2 * edge - 1, side * (edge - 1)⟩, -side⟩ : Stance).stops bs := by
    have hbend := bend_ne_forward
    simp only [Stance.quadrants, stops_forward, stops_cons (hbend _), stops_concat (hbend _),
      follow_append, follow_cons, follow_nil, h₁, h₂, h₃, h₄]
  constructor
  · simp only [Stance.quadrants, follow_append, follow_cons, follow_nil, h₁, h₂, h₃, h₄, h₅]
  · rw [hstops]
    simp only [List.length_append, length_stops _ as, length_stops _ bs, Nat.cast_add, ha.length,
      hb.length]
    ring
  · intro z
    rw [hstops]
    simp only [List.mem_append, mem_stops, ha.mem, hb.mem]
    rcases Int.units_eq_one_or side with rfl | rfl
    all_goals
      simp
      omega

end Stance

namespace Grammar

open Stance

/-- The symbol that stands for a path on a side of the first axis. -/
def hilbertSymbol (side : ℤˣ) : Symbol := if side = 1 then 'a' else 'b'

/-- The path of some order on a side. -/
def hilbertPath (n : ℕ) (side : ℤˣ) : List Command :=
  Word.commands (Catalog.hilbert.rules.generation n [hilbertSymbol side])

lemma hilbertPath_succ (n : ℕ) (side : ℤˣ) :
    hilbertPath (n + 1) side = quadrants side (hilbertPath n side) (hilbertPath n (-side)) := by
  have hfixed {c : Symbol} (hc : Catalog.hilbert.rules.replacement c = [c]) :=
    Catalog.hilbert.rules.generation_of_fixed hc n
  have hleft := hfixed (c := '+') rfl
  have hright := hfixed (c := '-') rfl
  have hforward := hfixed (c := 'f') rfl
  rw [hilbertPath, RuleTable.generation, RuleTable.generation_eq_flatMap]
  rcases Int.units_eq_one_or side with rfl | rfl
  · change Word.commands (List.flatMap _ ("+bf-afa-fb+" : Word)) = _
    simp [hleft, hright, hforward, Word.commands, Text.ofString, Text.ofChars, Command.ofSymbol,
      quadrants, bend, hilbertPath, hilbertSymbol]
  · change Word.commands (List.flatMap _ ("-af+bfb+fa-" : Word)) = _
    simp [hleft, hright, hforward, Word.commands, Text.ofString, Text.ofChars, Command.ofSymbol,
      quadrants, bend, hilbertPath, hilbertSymbol]

lemma fills_hilbertPath (n : ℕ) (side : ℤˣ) : Fills side (2 ^ n) (hilbertPath n side) := by
  induction n generalizing side with
  | zero =>
    have hidle : hilbertPath 0 side = [.idle] := by
      rcases Int.units_eq_one_or side with rfl | rfl <;> rfl
    rw [hidle]
    refine ⟨rfl, rfl, fun z => ?_⟩
    change z ∈ [0] ↔ _
    rw [List.mem_singleton, Zsqrtd.ext_iff]
    rcases Int.units_eq_one_or side with rfl | rfl
    all_goals
      simp
      omega
  | succ n ih =>
    rw [hilbertPath_succ, pow_succ']
    exact (ih side).quadrants (ih (-side))

lemma hilbert_unbranched : Catalog.hilbert.Unbranched := ⟨by decide, by decide⟩

/-- Each generation of the Hilbert curve goes through all points of a square, through each once, from
one corner to the next. -/
theorem hilbert_fills_square (n : ℕ) :
    ∃ w d, Catalog.hilbert.Expands n w ∧ quarterTrace w.commands = .ok d ∧
      (quarterMoves w.commands).length = 4 ^ n - 1 ∧
      (quarterStops w.commands).length = 4 ^ n ∧
      (quarterStops w.commands).Nodup ∧
      (∀ p, p ∈ quarterStops w.commands ↔ (0 ≤ p.1 ∧ p.1 < 2 ^ n) ∧ 0 ≤ p.2 ∧ p.2 < 2 ^ n) ∧
      d.turtle = ⟨2 ^ n - 1, 0, 0⟩ := by
  obtain ⟨d, hd, hstance, hstops⟩ := (hilbert_unbranched.generation n).exists_quarterTrace_stops
  refine ⟨_, d, expands_iff.mpr rfl, hd, ?_⟩
  obtain ⟨hfollow, hlength, hmem⟩ : Fills 1 (2 ^ n)
    (Word.commands (Catalog.hilbert.rules.generation n Catalog.hilbert.seed)) :=
    fills_hilbertPath n 1
  generalize Word.commands (Catalog.hilbert.rules.generation n Catalog.hilbert.seed) = path at *
  have hcount : (quarterStops path).length = (2 ^ n) ^ 2 := by
    rw [← hstops, List.length_map] at hlength
    exact_mod_cast hlength
  have hall (p : Point ℤ) :
      p ∈ quarterStops path ↔ (0 ≤ p.1 ∧ p.1 < 2 ^ n) ∧ 0 ≤ p.2 ∧ p.2 < 2 ^ n := by
    rw [← List.mem_map_of_injective Point.gaussian_injective, hstops, hmem, Units.val_one, one_mul]
    rfl
  have hnodup := nodup_of_square hcount (by exact_mod_cast hall)
  rw [← pow_mul, mul_comm, pow_mul] at hcount
  refine ⟨?moves, hcount, hnodup, hall, Pose.stance_injective (hstance.trans hfollow)⟩
  rw [quarterStops, List.length_cons, List.length_map] at hcount
  exact Nat.eq_sub_of_add_eq hcount

example : quarterStops (hilbertPath 1 1) = [(0, 0), (0, 1), (1, 1), (1, 0)] := by decide

end Grammar

end Lindenmayer
