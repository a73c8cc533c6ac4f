import Lindenmayer.Proofs.CommandLine.Encoding
import Lindenmayer.Proofs.Files.Writing

/-! What a command does to the files. One that fails changes none of them, and one that succeeds changes
the file it was asked to draw into and no other. Directories are made for that file only. -/

namespace Lindenmayer.CommandLine

namespace Invocation

def draws : Invocation → Bool
  | .render .. | .preset .. => true
  | .presets | .expand .. | .validate _ => false

def output? : Invocation → Option String
  | .render _ output _ _ | .preset _ output _ _ _ _ => output
  | .presets | .expand .. | .validate _ => none

lemma reply_eq_write {i : Invocation} {source : Source} {name : String} {text : Option (List Char)}
    (h : i.reply source = .write name text) :
    i.output? = some name ∧ ∀ s ∈ text, Svg.IsDocument s := by
  have hconfig {x : Except Failure Config} {iterations limit : Option Int} {output : Option String}
      (h : replyOf (x.map fun c => renderConfig (c.withIterations iterations) output limit) =
        .write name text) : output = some name ∧ ∀ s ∈ text, Svg.IsDocument s := by
    rcases replyOf_eq_iff.mp h with h | ⟨e, -, he⟩
    · obtain ⟨c, -, hc⟩ := Except.map_eq_ok_iff.mp h
      cases renderConfig_eq_iff.mp hc with
      | wrote _ htext houtput =>
        obtain ⟨l, d, document, -, -, hdocument, rfl⟩ := renderDocument_eq_ok_iff.mp htext
        refine ⟨houtput, fun s hs => ?_⟩
        split at hs
        · exact Option.mem_some.mp hs ▸ Svg.isDocument_of_document hdocument
        · cases hs
    · cases he
  cases i with
  | render | preset => exact hconfig h
  | presets => cases h
  | expand =>
    rcases replyOf_eq_iff.mp h with h | ⟨e, -, he⟩
    · obtain ⟨c, -, hc⟩ := Except.bind_eq_ok_iff.mp h
      obtain ⟨w, -, hw⟩ := Except.bind_eq_ok_iff.mp hc
      exact absurd (Except.ok.inj hw) (wordReply_ne_write w name text)
    · cases he
  | validate =>
    rcases replyOf_eq_iff.mp h with h | ⟨e, -, he⟩
    · obtain ⟨c, -, hc⟩ := Except.map_eq_ok_iff.mp h
      exact absurd hc (validateConfig_ne_write c name text)
    · cases he

lemma reply_ne_done_zero {i : Invocation} (hi : i.draws = true) (source : Source)
    (stdout stderr : String) : i.reply source ≠ .done stdout stderr 0 := by
  intro h
  cases i with
  | render | preset =>
    rcases replyOf_eq_iff.mp h with h | ⟨e, -, he⟩
    · obtain ⟨c, -, hc⟩ := Except.map_eq_ok_iff.mp h
      exact renderConfig_ne_done_zero _ _ _ _ _ hc
    · cases he
  | presets | expand | validate => cases hi

end Invocation

lemma Outcome.not_reports_of_ofWrite (encoded : Bool) (e : Option Files.Error) {c : Char}
    {rest : List Char} {heading : String} (hc : heading.toList = c :: rest) (hne : c ≠ 'F') :
    ¬ (Outcome.ofWrite encoded e).Reports heading := by
  intro h
  unfold Reports at h
  rw [hc] at h
  cases e with
  | none => cases encoded <;> simp [ofWrite, ofFailure, Failure.heading?] at h
  | some e =>
    rcases Failure.heading?_file e with hnone | hfile
    · simp [ofWrite, ofFailure, hnone] at h
    · simp [ofWrite, ofFailure, hfile, hne] at h

namespace Invocation

variable {i : Invocation} {t u : Files.Tree} {o : Outcome}

lemma Ran.sameFiles (h : i.Ran t o u) (hexit : o.exit ≠ .code 0)
    (hencoded : o.exit ≠ .escaped .unencodable) : t.SameFiles u := by
  cases h with
  | done | failed => exact .refl t
  | @wrote _ text e _ _ hwrite =>
    cases e with
    | none =>
      cases htext : text.isSome with
      | true => exact absurd (Outcome.exit_ofWrite_eq_zero_iff.mpr ⟨htext, rfl⟩) hexit
      | false => exact absurd (Outcome.exit_ofWrite_eq_unencodable_iff.mpr ⟨htext, rfl⟩) hencoded
    | some e => exact Files.Tree.sameFiles_of_write hwrite

lemma Ran.of_unencodable (h : i.Ran t o u) (hexit : o.exit = .escaped .unencodable) :
    i.ReadsHalf t ∧ (u = t ∨ ∃ name, i.output? = some name ∧ t.Wrote u name []) := by
  cases h with
  | done => cases hexit
  | @failed stdout e hreply =>
    obtain ⟨rfl, -⟩ := Outcome.exit_ofFailure_eq_escaped_iff.mp hexit
    exact ⟨readsHalf_of_reply (by rw [hreply]; exact .failed), .inl rfl⟩
  | @wrote name text e _ hreply hwrite =>
    obtain ⟨htext, rfl⟩ := Outcome.exit_ofWrite_eq_unencodable_iff.mp hexit
    obtain rfl := Option.not_isSome_iff_eq_none.mp (Bool.eq_false_iff.mp htext)
    exact ⟨readsHalf_of_reply (by rw [hreply]; exact .write),
      .inr ⟨name, (reply_eq_write hreply).1, Files.Tree.wrote_of_write hwrite⟩⟩

lemma Ran.eq_self_of_reports (h : i.Ran t o u)
    (hreports : o.Reports "Nothing rendered: " ∨ o.Reports "Config error: " ∨
      o.Reports "Structure error: ") : u = t := by
  cases h with
  | done | failed => rfl
  | wrote =>
    -- A fault of the files is reported under a heading of its own.
    rcases hreports with hreports | hreports | hreports
    · exact absurd hreports (Outcome.not_reports_of_ofWrite _ _ rfl (by decide))
    · exact absurd hreports (Outcome.not_reports_of_ofWrite _ _ rfl (by decide))
    · exact absurd hreports (Outcome.not_reports_of_ofWrite _ _ rfl (by decide))

lemma Ran.eq_self_of_not_draws (h : i.Ran t o u) (hdraws : i.draws = false) : u = t := by
  cases h with
  | done | failed => rfl
  | wrote hreply =>
    have houtput := (reply_eq_write hreply).1
    cases i with
    | render | preset => cases hdraws
    | presets | expand | validate => cases houtput

lemma Ran.wrote_of_draws (h : i.Ran t o u) (hdraws : i.draws = true) (hexit : o.exit = .code 0) :
    ∃ name text, i.output? = some name ∧ t.Wrote u name (Text.Utf8.encode text) ∧
      Svg.IsDocument text := by
  cases h with
  | done hreply =>
    obtain rfl := Exit.code.inj hexit
    exact absurd hreply (reply_ne_done_zero hdraws _ _ _)
  | failed => exact absurd hexit (Outcome.ofFailure_exit_ne_zero _ _)
  | @wrote name text e _ hreply hwrite =>
    obtain ⟨houtput, hdocument⟩ := reply_eq_write hreply
    obtain ⟨htext, rfl⟩ := Outcome.exit_ofWrite_eq_zero_iff.mp hexit
    obtain ⟨s, rfl⟩ := Option.isSome_iff_exists.mp htext
    exact ⟨name, s, houtput, Files.Tree.wrote_of_write hwrite, hdocument s rfl⟩

end Invocation

/-- What is there after a run. A run that ends with its arguments has looked at nothing. -/
def treeAfter (args : List String) (t : Files.Tree) : Files.Tree :=
  match run args t with
  | .ok (_, u) => u
  | .error _ => t

/-- A run that does not return zero changes no file, and makes no directory unless a fault of the files
ends it. One that returns zero has written its document, if it draws, and changed nothing else. It takes a
half of a pair in the configuration to end a run that leaves its file empty. -/
theorem run_tree (args : List String) (t : Files.Tree) :
    ((∀ i, Invocation.ofArguments args = .ok i → ¬ i.ReadsHalf t) →
      (∀ o u, run args t = .ok (o, u) → o.exit ≠ .code 0) → t.SameFiles (treeAfter args t)) ∧
    (∀ stop, run args t = .error stop → treeAfter args t = t) ∧
    ∀ i o u, Invocation.ofArguments args = .ok i → run args t = .ok (o, u) →
      treeAfter args t = u ∧
      (o.Reports "Nothing rendered: " ∨ o.Reports "Config error: " ∨
        o.Reports "Structure error: " → u = t) ∧
      (o.exit = .code 0 → i.draws = false → u = t) ∧
      (o.exit = .code 0 → i.draws = true → ∃ name text, i.output? = some name ∧
        t.Wrote u name (Text.Utf8.encode text) ∧ Svg.IsDocument text ∧
        "</svg>\n".toList <:+ text) ∧
      (o.exit ≠ .code 0 → o.exit ≠ .escaped .unencodable → t.SameFiles u) ∧
      (o.exit = .escaped .unencodable → i.ReadsHalf t ∧
        (u = t ∨ ∃ name, i.output? = some name ∧ t.Wrote u name [])) := by
  refine ⟨fun hwhole hfailed => ?failed, fun stop hstop => ?stopped, fun i o u hargs hrun => ?ended⟩
  case failed =>
    unfold treeAfter
    split
    · next o u hrun =>
      obtain ⟨i, hargs, hi⟩ := run_eq_ok_iff.mp hrun
      exact hi.sameFiles (hfailed o u hrun) fun hexit => hwhole i hargs (hi.of_unencodable hexit).1
    · exact .refl t
  case stopped =>
    rw [treeAfter, hstop]
  case ended =>
    obtain ⟨i', hargs', hi⟩ := run_eq_ok_iff.mp hrun
    obtain rfl := Except.ok.inj (hargs.symm.trans hargs')
    refine ⟨by rw [treeAfter, hrun], hi.eq_self_of_reports, fun _ => hi.eq_self_of_not_draws,
      fun hexit hdraws => ?_, hi.sameFiles, hi.of_unencodable⟩
    obtain ⟨name, text, houtput, hwrote, htext⟩ := hi.wrote_of_draws hdraws hexit
    exact ⟨name, text, houtput, hwrote, htext, htext.ends⟩

def lineTree : Files.Tree := filesOf [("c.json", "\x7b\"seed\":\"f\",\"iterations\":1\x7d")]

lemma lineTree_whole {i : Invocation} (hi : i.source? = some "c.json") :
    ¬ i.ReadsHalf lineTree := by
  rintro ⟨config, v, hconfig, hv, hhalf⟩
  obtain rfl := Option.some.inj (hi.symm.trans hconfig)
  have hline : lineTree.Holds "c.json" (.object [("seed", .string "f"), ("iterations", .int 1)]) :=
    ⟨_, _, rfl, rfl, by decide +kernel⟩
  obtain rfl := hline.unique hv
  simp only [Json.hasHalf_object_iff, List.mem_cons, List.not_mem_nil, or_false, exists_eq_or_imp,
    exists_eq_left, Json.hasHalf_string_iff, Text.isWhole_ofString] at hhalf
  rcases hhalf with (h | h) | (h | h) <;> cases h

/-- The file that is read stands in the way of the second document. -/
theorem run_tree_line :
    (∃ o u text, run ["render", "c.json", "a/o.svg"] lineTree = .ok (o, u) ∧ o.exit = .code 0 ∧
      lineTree.Wrote u "a/o.svg" (Text.Utf8.encode text) ∧ "</svg>\n".toList <:+ text) ∧
    ∃ o u, run ["render", "c.json", "c.json/o.svg"] lineTree = .ok (o, u) ∧ o.exit = .code 2 ∧
      lineTree.SameFiles u := by
  constructor
  · have hseen : seen ["render", "c.json", "a/o.svg"] lineTree = some ("", "", some 0) := by
      decide +kernel
    obtain ⟨exit, u, hrun, hexit⟩ := run_of_seen hseen
    have hzero := (hexit 0).mpr rfl
    obtain ⟨name, text, houtput, hwrote, -, hends⟩ :=
      ((run_tree ["render", "c.json", "a/o.svg"] lineTree).2.2 _ _ _ rfl hrun).2.2.2.1 hzero rfl
    obtain rfl := Option.some.inj houtput
    exact ⟨_, u, text, hrun, hzero, hwrote, hends⟩
  · have hseen : seen ["render", "c.json", "c.json/o.svg"] lineTree =
        some ("", "File error: [Errno 17] File exists: '/c.json'\n", some 2) := by
      decide +kernel
    obtain ⟨exit, u, hrun, hexit⟩ := run_of_seen hseen
    have htwo := (hexit 2).mpr rfl
    have hended :=
      (run_tree ["render", "c.json", "c.json/o.svg"] lineTree).2.2 _ _ _ rfl hrun
    refine ⟨_, u, hrun, htwo,
      hended.1 ▸ (run_tree _ lineTree).1 (fun i hi => ?_) fun o u' hrun' => ?_⟩
    · obtain rfl : _ = i := Except.ok.inj hi
      exact lineTree_whole rfl
    · obtain ⟨rfl, rfl⟩ := Prod.mk.inj (Except.ok.inj (hrun.symm.trans hrun'))
      simp [htwo]

end Lindenmayer.CommandLine
