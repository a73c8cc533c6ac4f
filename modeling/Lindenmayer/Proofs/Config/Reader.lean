import Lindenmayer.Config.Reader
import Lindenmayer.Proofs.Except

/-! What holds of every configuration that is read, wherever it was read from. -/

namespace Lindenmayer

lemma Catalog.mem_of_find? {key : Text} {g : Grammar} (h : Catalog.find? key = some g) :
    ∃ k, (k, g) ∈ Catalog.all ∧ Text.ofString k = key := by
  obtain ⟨before, after, hsplit, -⟩ := List.lookup_eq_some_iff.mp h
  have hmem := List.mem_append_right before (List.mem_cons_self (a := (key, g)) (l := after))
  rw [← hsplit, List.mem_map] at hmem
  obtain ⟨p, hp, hkey⟩ := hmem
  obtain ⟨rfl, rfl⟩ := Prod.mk.inj hkey
  exact ⟨p.1, hp, rfl⟩

namespace Config

lemma require_eq_ok_iff {holds : Bool} {e : Error} {u : Unit} :
    require holds e = .ok u ↔ holds = true := by
  cases holds <;> simp [require]

structure InRange (c : Config) : Prop where
  seed : c.grammar.seed ≠ []
  iterations : 0 ≤ c.iterations
  width : 0 < c.canvas.surface.width
  height : 0 < c.canvas.surface.height
  margin : 0 ≤ c.canvas.surface.margin
  precision : 0 ≤ c.canvas.precision ∧ c.canvas.precision ≤ 10

lemma readGrammar_inRange {ms : Members} {g : Grammar} (h : readGrammar ms = .ok g) :
    g.seed ≠ [] ∧ 0 ≤ g.defaultIterations := by
  obtain ⟨base, -, h⟩ := Except.bind_eq_ok_iff.mp h
  obtain ⟨name, -, h⟩ := Except.bind_eq_ok_iff.mp h
  obtain ⟨seed, -, h⟩ := Except.bind_eq_ok_iff.mp h
  obtain ⟨_, hseed, h⟩ := Except.bind_eq_ok_iff.mp h
  obtain ⟨rules, -, h⟩ := Except.bind_eq_ok_iff.mp h
  obtain ⟨angle, -, h⟩ := Except.bind_eq_ok_iff.mp h
  obtain ⟨iterations, -, h⟩ := Except.bind_eq_ok_iff.mp h
  obtain ⟨_, hiterations, h⟩ := Except.bind_eq_ok_iff.mp h
  obtain rfl := Except.ok.inj h
  exact ⟨by simpa using require_eq_ok_iff.mp hseed,
    of_decide_eq_true (require_eq_ok_iff.mp hiterations)⟩

lemma readCanvas_inRange {ms : Members} {canvas : Svg.Canvas Text} (h : readCanvas ms = .ok canvas) :
    0 < canvas.surface.width ∧ 0 < canvas.surface.height ∧ 0 ≤ canvas.surface.margin ∧
      0 ≤ canvas.precision ∧ canvas.precision ≤ 10 := by
  obtain ⟨width, -, h⟩ := Except.bind_eq_ok_iff.mp h
  obtain ⟨height, -, h⟩ := Except.bind_eq_ok_iff.mp h
  obtain ⟨_, hwidth, h⟩ := Except.bind_eq_ok_iff.mp h
  obtain ⟨_, hheight, h⟩ := Except.bind_eq_ok_iff.mp h
  obtain ⟨margin, -, h⟩ := Except.bind_eq_ok_iff.mp h
  obtain ⟨_, hmargin, h⟩ := Except.bind_eq_ok_iff.mp h
  obtain ⟨precision, -, h⟩ := Except.bind_eq_ok_iff.mp h
  obtain ⟨_, hprecision, h⟩ := Except.bind_eq_ok_iff.mp h
  obtain ⟨flip, -, h⟩ := Except.bind_eq_ok_iff.mp h
  obtain ⟨styleMembers, -, h⟩ := Except.bind_eq_ok_iff.mp h
  obtain ⟨style, -, h⟩ := Except.bind_eq_ok_iff.mp h
  obtain ⟨background, -, h⟩ := Except.bind_eq_ok_iff.mp h
  obtain rfl := Except.ok.inj h
  exact ⟨of_decide_eq_true (require_eq_ok_iff.mp hwidth),
    of_decide_eq_true (require_eq_ok_iff.mp hheight),
    of_decide_eq_true (require_eq_ok_iff.mp hmargin),
    of_decide_eq_true (require_eq_ok_iff.mp hprecision)⟩

lemma ofJson_inRange {v : Json} {c : Config} (h : ofJson v = .ok c) : c.InRange := by
  obtain ⟨ms, -, h⟩ := Except.bind_eq_ok_iff.mp h
  obtain ⟨grammar, hgrammar, h⟩ := Except.bind_eq_ok_iff.mp h
  obtain ⟨svg, -, h⟩ := Except.bind_eq_ok_iff.mp h
  obtain ⟨canvas, hcanvas, h⟩ := Except.bind_eq_ok_iff.mp h
  obtain rfl := Except.ok.inj h
  obtain ⟨hseed, hiterations⟩ := readGrammar_inRange hgrammar
  obtain ⟨hwidth, hheight, hmargin, hprecision⟩ := readCanvas_inRange hcanvas
  exact ⟨hseed, hiterations, hwidth, hheight, hmargin, hprecision⟩

lemma ofBytes_eq_ok_iff {path : String} {bytes : List UInt8} {c : Config} :
    ofBytes path bytes = .ok c ↔ ∃ text v, Text.Utf8.decode bytes = .ok text ∧
      Json.read (Text.unifyBreaks [] text) = .ok v ∧ ofJson v = .ok c := by
  unfold ofBytes ofText
  cases Text.Utf8.decode bytes with
  | error e => simp
  | ok text =>
    simp only [Except.ok.injEq, exists_and_left, exists_eq_left']
    cases Json.read (Text.unifyBreaks [] text) with
    | error e => simp
    | ok v => simp [Except.mapError_eq_ok_iff]

lemma ofBytes_eq_content_iff {path : String} {bytes : List UInt8} {e : Error} :
    ofBytes path bytes = .error (.content e) ↔ ∃ text v, Text.Utf8.decode bytes = .ok text ∧
      Json.read (Text.unifyBreaks [] text) = .ok v ∧ ofJson v = .error e := by
  unfold ofBytes ofText
  cases Text.Utf8.decode bytes with
  | error e => simp
  | ok text =>
    simp only [Except.ok.injEq, exists_and_left, exists_eq_left']
    cases Json.read (Text.unifyBreaks [] text) with
    | error e => simp
    | ok v => simp [Except.mapError_eq_error_iff]

lemma ofBytes_eq_json_iff {path path' : String} {bytes : List UInt8} {text : List Char}
    {e : Json.Error} :
    ofBytes path bytes = .error (.json path' text e) ↔ ∃ decoded,
      Text.Utf8.decode bytes = .ok decoded ∧ Text.unifyBreaks [] decoded = text ∧
        Json.read text = .error e ∧ path = path' := by
  unfold ofBytes ofText
  cases Text.Utf8.decode bytes with
  | error e => simp
  | ok decoded =>
    simp only [Except.ok.injEq, exists_eq_left']
    constructor
    · intro h
      split at h
      · next hread =>
        obtain ⟨rfl, rfl, rfl⟩ := FileError.json.inj (Except.error.inj h)
        exact ⟨rfl, hread, rfl⟩
      · next v _ => cases hv : ofJson v <;> rw [hv] at h <;> cases h
    · rintro ⟨rfl, hread, rfl⟩
      rw [hread]

lemma ofBytes_inRange {path : String} {bytes : List UInt8} {c : Config}
    (h : ofBytes path bytes = .ok c) : c.InRange := by
  obtain ⟨_, _, -, -, hc⟩ := ofBytes_eq_ok_iff.mp h
  exact ofJson_inRange hc

lemma InRange.placesOf {c : Config} (h : c.InRange) :
    ∃ places, Decimal.placesOf c.canvas.precision = .ok places := by
  obtain ⟨n, hn⟩ := Int.eq_ofNat_of_zero_le h.precision.1
  have hten := h.precision.2
  rw [hn] at hten ⊢
  refine ⟨n, ?_⟩
  unfold Decimal.placesOf
  simp only
  rw [if_neg (by omega), if_neg (by omega)]

end Config

end Lindenmayer
