import Lindenmayer.Proofs.Config.Documented

/-! The count of generations of a configuration. Where it is set makes no difference: a configuration that
says it is read as one that does not, with the count given afterwards. -/

namespace Lindenmayer

namespace Json

def setMember (v : Json) (k : String) (x : Json) : Json :=
  match v with
  | .object ms => .object (insertMember (.ofString k) x ms)
  | v => v

lemma lookup_insertMember (k k' : Text) (x : Json) (ms : List (Text × Json)) :
    (insertMember k x ms).lookup k' = if k' = k then some x else ms.lookup k' := by
  induction ms with
  | nil =>
    by_cases hk : k' = k
    · simp [insertMember, hk]
    · simp [insertMember, List.lookup_cons, hk, beq_eq_false_iff_ne.mpr hk]
  | cons m ms ih =>
    obtain ⟨k₀, y⟩ := m
    by_cases hm : k₀ = k
    · by_cases hk : k' = k
      · simp [insertMember, hm, hk]
      · simp [insertMember, List.lookup_cons, hm, hk, beq_eq_false_iff_ne.mpr hk]
    · by_cases hk : k' = k₀
      · subst hk
        simp [insertMember, hm]
      · simp [insertMember, List.lookup_cons, hm, beq_eq_false_iff_ne.mpr hk, ih]

/-- Two values that have the same members, but for one. -/
def SameBut (k : String) (v w : Json) : Prop :=
  ∀ k', k' ≠ k → ∀ ks, w.at? (k' :: ks) = v.at? (k' :: ks)

variable {k : String} {x : Json}

lemma sameBut_setMember (v : Json) : v.SameBut k (v.setMember k x) := by
  intro k' hk ks
  cases v with
  | object ms =>
    change ((insertMember (.ofString k) x ms).lookup (.ofString k')).bind (·.at? ks) =
      (ms.lookup (.ofString k')).bind (·.at? ks)
    rw [lookup_insertMember, if_neg (mt Text.ofString_inj.mp hk)]
  | _ => rfl

lemma at?_setMember (ms : List (Text × Json)) : ((object ms).setMember k x).at? [k] = some x := by
  change (object (insertMember (.ofString k) x ms)).at? [k] = some x
  rw [at?_object, lookup_insertMember, if_pos rfl]

end Json

namespace Config

section Iterations

variable {v w : Json} {n : Int} {c : Config}

def IsCount (v : Json) : Prop := ∃ n, v = .int n ∧ 0 ≤ n

lemma grammarFaults_eq_of_sameBut (h : v.SameBut "iterations" w) (hv : v.Field ["iterations"] IsCount)
    (hw : w.Field ["iterations"] IsCount) : grammarFaults w = grammarFaults v := by
  obtain ⟨hkind, hbound⟩ := (boundedInteger_iff (0 ≤ ·)).mpr hv
  obtain ⟨hkind', hbound'⟩ := (boundedInteger_iff (0 ≤ ·)).mpr hw
  rw [grammarFaults, grammarFaults, hkind, hbound, hkind', hbound']
  simp only [seedFaults, kindFaults, numberFaults, valueFaults, faultsAt, h "preset" (by decide),
    h "name" (by decide), h "seed" (by decide), h "rules" (by decide), h "angle" (by decide)]

lemma canvasFaults_eq_of_sameBut (h : v.SameBut "iterations" w) : canvasFaults w = canvasFaults v := by
  simp only [canvasFaults, styleFaults, kindFaults, numberFaults, valueFaults, faultsAt,
    h "svg" (by decide)]

lemma given_eq_of_sameBut {α : Type} (h : v.SameBut "iterations" w) {k : String}
    (hk : k ≠ "iterations") {ks : List String} {read? : Json → Option α} {absent : Option α} :
    given w (k :: ks) read? absent = given v (k :: ks) read? absent := by
  rw [given, given, h k hk]

lemma saysGrammar_of_sameBut (h : v.SameBut "iterations" w)
    (hw : w.at? ["iterations"] = some (.int n)) {g : Grammar} (hg : SaysGrammar v g) :
    SaysGrammar w { g with iterations := some n } := by
  have hpreset : preset? w = preset? v := by rw [preset?, preset?, h "preset" (by decide)]
  constructor
  · rw [given_eq_of_sameBut h (by decide), hpreset]
    exact hg.name
  · rw [given_eq_of_sameBut h (by decide), hpreset]
    exact hg.seed
  · rw [given_eq_of_sameBut h (by decide), hpreset]
    exact hg.rules
  · rw [given_eq_of_sameBut h (by decide), hpreset]
    exact hg.angle
  · rw [given, hw]
    rfl

lemma saysCanvas_of_sameBut (h : v.SameBut "iterations" w) {canvas : Svg.Canvas Text}
    (hc : SaysCanvas v canvas) : SaysCanvas w canvas := by
  have hsvg {α : Type} {ks : List String} {read? : Json → Option α} {absent : Option α} :
      given w ("svg" :: ks) read? absent = given v ("svg" :: ks) read? absent :=
    given_eq_of_sameBut h (by decide)
  have hstyle := hc.style
  exact {
    width := hsvg.trans hc.width
    height := hsvg.trans hc.height
    margin := hsvg.trans hc.margin
    precision := hsvg.trans hc.precision
    flip := hsvg.trans hc.flip
    style := ⟨hsvg.trans hstyle.stroke, hsvg.trans hstyle.strokeWidth, hsvg.trans hstyle.fill,
      hsvg.trans hstyle.linecap, hsvg.trans hstyle.linejoin⟩
    background := hsvg.trans hc.background }

lemma ofJson_setIterations (hv : IsObject v) (hcount : v.Field ["iterations"] IsCount)
    (hn : 0 ≤ n) :
    ofJson (v.setMember "iterations" (.int n)) =
      (ofJson v).map (·.withIterations (some n)) := by
  have hbut : v.SameBut "iterations" (v.setMember "iterations" (.int n)) :=
    Json.sameBut_setMember v
  have hset : (v.setMember "iterations" (.int n)).at? ["iterations"] = some (.int n) := by
    obtain ⟨ms, rfl⟩ := hv
    exact Json.at?_setMember ms
  have hcount' : (v.setMember "iterations" (.int n)).Field ["iterations"] IsCount := fun x hx =>
    ⟨n, (Option.some.inj (hset.symm.trans hx)).symm, hn⟩
  have hfaults : faults (v.setMember "iterations" (.int n)) = faults v := by
    have hroot : kindFaults (v.setMember "iterations" (.int n)) [] .object =
        kindFaults v [] .object := by
      obtain ⟨ms, rfl⟩ := hv
      rfl
    have hsvg : kindFaults (v.setMember "iterations" (.int n)) ["svg"] .object =
        kindFaults v ["svg"] .object := by
      rw [kindFaults, kindFaults, faultsAt, faultsAt, hbut "svg" (by decide)]
    rw [faults, faults, hroot, grammarFaults_eq_of_sameBut hbut hcount hcount', hsvg,
      canvasFaults_eq_of_sameBut hbut]
  refine (hfaults ▸ finds_ofJson _).eq ((finds_ofJson v).map _) ?_
  rintro c d hc ⟨c', hc', rfl⟩
  exact hc.unique ⟨saysGrammar_of_sameBut hbut hset hc'.grammar,
    saysCanvas_of_sameBut hbut hc'.canvas⟩

lemma Documented.of_ofJson (h : ofJson v = .ok c) : Documented v :=
  faults_eq_nil_iff.mp ((finds_ofJson v).eq_ok_iff.mp ⟨c, h⟩)

end Iterations

section Sized

/-- A curve of the catalog, in a canvas of a given size. -/
def sizedCurve (key : Text) (width height : Json) : Json :=
  .object [("preset", .string key), ("svg", .object [("width", width), ("height", height)])]

lemma asNumber_of_number? {field : Text} {v : Json} {x : Float} (h : v.number? = some x) :
    asNumber field v = .ok x := by
  cases v with
  | float y => exact congrArg Except.ok (Option.some.inj h)
  | int n => simp only [asNumber, show Binary64.ofInt? n = some x from h]
  | _ => cases h

lemma ofJson_sizedCurve_eq (key : Text) (width height : Json) :
    ofJson (sizedCurve key width height) =
      readGrammar [("preset", .string key)] >>= fun grammar =>
        readCanvas [("width", width), ("height", height)] >>= fun canvas => .ok ⟨grammar, canvas⟩ := by
  rfl

lemma ofJson_sizedCurve {key : Text} {width height : Json} {w h : Float}
    (hwidth : width.number? = some w) (hheight : height.number? = some h) :
    ofJson (sizedCurve key width height) = ofJson (sizedCurve key (.float w) (.float h)) := by
  have hcanvas : readCanvas [("width", width), ("height", height)] =
      readCanvas [("width", .float w), ("height", .float h)] := by
    have hw (field : Text) : asNumber field width = asNumber field (.float w) :=
      asNumber_of_number? hwidth
    have hh (field : Text) : asNumber field height = asNumber field (.float h) :=
      asNumber_of_number? hheight
    simp [readCanvas, member, List.lookup_cons, hw, hh]
  rw [ofJson_sizedCurve_eq, ofJson_sizedCurve_eq, hcanvas]

lemma ofJson_sizedCurve_setIterations (key : Text) (width height : Json) {n : Int} (hn : 0 ≤ n) :
    ofJson ((sizedCurve key width height).setMember "iterations" (.int n)) =
      (ofJson (sizedCurve key width height)).map (·.withIterations (some n)) := by
  have hnone : (sizedCurve key width height).at? ["iterations"] = none := rfl
  exact ofJson_setIterations ⟨_, rfl⟩ (fun x hx => nomatch hnone.symm.trans hx) hn

end Sized

end Config

end Lindenmayer
