import Mathlib.Data.List.DropRight
import Cartridge.CommandLine.Run

/-!
# The components of written paths

Segments without slashes are read back from the path that is made of them (`segments_ofSegments`),
so the components of a path that was written can be told: those behind a base for a path relative
to it (`components_relativeTo`), and all but the last of those of the project for a file that is
named after it (`dropLast_components_withExtension`).

A segment names the same wherever it stands, but for the first one (`steps_of_segments`); and the
first one of the part that is written is either the first one of all, or it names something.
-/

namespace Cartridge.CommandLine

/-! ## Slashes -/

section Slashes

variable {cs : List Char} {segments : List Segment} {s : Segment}

theorem splitAtSlash_eq_splitOn (cs : List Char) : splitAtSlash cs = cs.splitOn '/' := by
  induction cs with
  | nil => rfl
  | cons c cs ih =>
    obtain ⟨s, rest, h⟩ := List.exists_cons_of_ne_nil (splitAtSlash_ne_nil cs)
    rw [splitAtSlash_cons, List.splitOn_cons_eq_if_modifyHead, ← ih, h]
    by_cases hc : c = '/'
    · rw [if_pos hc, if_pos (beq_iff_eq.mpr hc)]
    · rw [if_neg hc, if_neg (mt beq_iff_eq.mp hc)]
      rfl

theorem slash_notMem_of_mem_splitAtSlash (h : s ∈ splitAtSlash cs) : '/' ∉ s := by
  induction cs generalizing s with
  | nil =>
    rw [List.mem_singleton.mp h]
    exact List.not_mem_nil
  | cons c cs ih =>
    rw [splitAtSlash_cons] at h
    by_cases hc : c = '/'
    · rw [if_pos hc, List.mem_cons] at h
      obtain rfl | h := h
      · exact List.not_mem_nil
      · exact ih h
    · obtain ⟨t, rest, hsplit⟩ := List.exists_cons_of_ne_nil (splitAtSlash_ne_nil cs)
      rw [if_neg hc, hsplit, List.mem_cons] at h
      rw [hsplit] at ih
      obtain rfl | h := h
      · rw [List.mem_cons, not_or]
        exact ⟨Ne.symm hc, ih List.mem_cons_self⟩
      · exact ih (List.mem_cons_of_mem t h)

namespace Path

theorem segments_ne_nil (p : Path) : p.segments ≠ [] := splitAtSlash_ne_nil p.text.toList

theorem slash_notMem_of_mem_segments (p : Path) (h : s ∈ p.segments) : '/' ∉ s :=
  slash_notMem_of_mem_splitAtSlash h

theorem segments_ofSegments (hne : segments ≠ []) (h : ∀ s ∈ segments, '/' ∉ s) :
    (ofSegments segments).segments = segments := by
  rw [Path.segments, ofSegments, String.toList_ofList, splitAtSlash_eq_splitOn,
    List.splitOn_intercalate '/' h hne]

end Path

end Slashes

/-! ## Steps -/

section Steps

variable {p : Path} {s t : Segment} {rest rest' back : List Segment} {cs base : List Component}
  {step : Step} {steps kept : List Step}

theorem Component.ofFirst?_of_isSome (h : (ofSegment? s).isSome = true) :
    ofFirst? s rest = ofSegment? s := by
  unfold ofSegment? at h
  unfold ofFirst?
  by_cases ht : s = [] ∨ s = ['.']
  · rw [if_pos ht] at h
    exact absurd h Bool.false_ne_true
  · obtain ⟨hnil, hdot⟩ := not_or.mp ht
    rw [if_neg hnil, if_neg hdot]

/-- What stands behind the first segment matters only if that is empty. -/
theorem Component.ofFirst?_congr (h : s = [] → (rest = [] ↔ rest' = [])) :
    ofFirst? s rest = ofFirst? s rest' := by
  unfold ofFirst?
  by_cases hs : s = []
  · rw [if_pos hs, if_pos hs]
    simp only [h hs]
  · rw [if_neg hs, if_neg hs]

/-- Only the first component can be the root. -/
theorem Component.ofSegment?_ne_root : ofSegment? s ≠ some root := by
  unfold ofSegment?
  split
  · exact nofun
  · split
    · exact nofun
    · exact nofun

theorem Component.ofSegment?_of_ofFirst? (h : ofFirst? s rest = some (name t)) :
    ofSegment? s = some (name t) := by
  unfold ofFirst? at h
  split at h
  · split at h
    · exact nomatch h
    · exact nomatch h
  · split at h
    · exact nomatch h
    · exact h

namespace Path

/-- The step of a segment behind the first one. -/
def later (s : Segment) : Step := (s, Component.ofSegment? s)

theorem map_fst_later (segments : List Segment) : (segments.map later).map Prod.fst = segments := by
  rw [List.map_map]
  exact List.map_id segments

theorem steps_of_segments (h : p.segments = s :: rest) :
    p.steps = (s, Component.ofFirst? s rest) :: rest.map later := by
  rw [steps, h]
  rfl

theorem map_fst_steps (p : Path) : p.steps.map Prod.fst = p.segments := by
  obtain ⟨s, rest, hseg⟩ := List.exists_cons_of_ne_nil p.segments_ne_nil
  rw [steps_of_segments hseg, hseg, List.map_cons, map_fst_later]

theorem components_of_segments (h : p.segments = s :: rest) :
    p.components = (Component.ofFirst? s rest).toList ++ rest.filterMap Component.ofSegment? := by
  rw [components, steps_of_segments h, List.filterMap_cons, List.filterMap_map]
  cases Component.ofFirst? s rest with
  | none => rfl
  | some c => rfl

theorem ofSegment?_of_mem_steps (h : (s, some (.name t)) ∈ p.steps) :
    Component.ofSegment? s = some (.name t) := by
  obtain ⟨u, rest, hseg⟩ := List.exists_cons_of_ne_nil p.segments_ne_nil
  rw [steps_of_segments hseg] at h
  obtain h | h := List.mem_cons.mp h
  · obtain ⟨rfl, hfirst⟩ := Prod.mk.inj h
    exact Component.ofSegment?_of_ofFirst? hfirst.symm
  · obtain ⟨u, -, hu⟩ := List.mem_map.mp h
    obtain ⟨rfl, hname⟩ := Prod.mk.inj hu
    exact hname

theorem snd_of_mem_tail_steps (h : step ∈ p.steps.tail) :
    step.2 = Component.ofSegment? step.1 := by
  obtain ⟨u, rest, hseg⟩ := List.exists_cons_of_ne_nil p.segments_ne_nil
  rw [steps_of_segments hseg, List.tail_cons] at h
  obtain ⟨v, -, rfl⟩ := List.mem_map.mp h
  rfl

/-- The steps that are cut off at the end name nothing. -/
theorem exists_eq_trimEnd_append (steps : List Step) :
    ∃ dropped, steps = trimEnd steps ++ dropped ∧ ∀ step ∈ dropped, step.2 = none := by
  refine ⟨steps.rtakeWhile fun step => step.2.isNone, List.rdropWhile_append_rtakeWhile.symm,
    fun step hstep => ?_⟩
  have hnone : step.2.isNone = true :=
    List.mem_rtakeWhile_imp (p := fun step : Step => step.2.isNone) hstep
  exact Option.isNone_iff_eq_none.mp hnone

theorem filterMap_trimEnd (steps : List Step) :
    (trimEnd steps).filterMap Prod.snd = steps.filterMap Prod.snd := by
  obtain ⟨dropped, hsteps, hnone⟩ := exists_eq_trimEnd_append steps
  have hdropped : dropped.filterMap Prod.snd = [] := List.filterMap_eq_nil_iff.mpr hnone
  conv_rhs => rw [hsteps, List.filterMap_append, hdropped, List.append_nil]

/-! ### Paths that are written -/

/-- A part of a path behind its first segment is read again as it is, if it begins with a segment
that names something. -/
theorem components_ofSteps_later (hslash : ∀ u ∈ back, '/' ∉ u)
    (hhead : ∀ u ∈ back.head?, (Component.ofSegment? u).isSome = true) :
    (ofSteps (back.map later)).components = (back.map later).filterMap Prod.snd := by
  have hroot : (back.map later).map Prod.snd ≠ [some .root] := by
    intro h
    have hmem : some Component.root ∈ (back.map later).map Prod.snd := by
      rw [h]
      exact List.mem_singleton_self _
    rw [List.map_map] at hmem
    obtain ⟨u, -, hu⟩ := List.mem_map.mp hmem
    exact Component.ofSegment?_ne_root hu
  rw [ofSteps, if_neg hroot, map_fst_later, List.filterMap_map]
  change _ = back.filterMap Component.ofSegment?
  cases back with
  | nil => rfl
  | cons t back =>
    have ht : (Component.ofSegment? t).isSome = true := hhead t rfl
    obtain ⟨c, hc⟩ := Option.isSome_iff_exists.mp ht
    rw [components_of_segments (segments_ofSegments (List.cons_ne_nil t back) hslash),
      Component.ofFirst?_of_isSome ht, List.filterMap_cons, hc]
    rfl

/-- A path that is cut off at the end is read again as it is, if its first segment names something.
The root is the one segment that means something else where nothing follows it. -/
theorem components_ofSteps_first (hslash : ∀ u ∈ s :: rest', '/' ∉ u)
    (hrest : rest = [] → rest' = [])
    (hfirst : (Component.ofFirst? s rest).isSome = true) :
    (ofSteps ((s, Component.ofFirst? s rest) :: rest'.map later)).components =
      ((s, Component.ofFirst? s rest) :: rest'.map later).filterMap Prod.snd := by
  unfold ofSteps
  split
  next hroot =>
    rw [List.map_cons, List.cons_eq_cons, List.map_eq_nil_iff, List.map_eq_nil_iff] at hroot
    obtain ⟨hroot, rfl⟩ := hroot
    rw [show Component.ofFirst? s rest = some .root from hroot]
    rfl
  next hroot =>
    have hsame : Component.ofFirst? s rest' = Component.ofFirst? s rest := by
      refine Component.ofFirst?_congr fun hs => ⟨fun hnil => ?_, hrest⟩
      subst hs hnil
      by_contra hne
      rw [Component.ofFirst?, if_pos rfl, if_neg hne] at hroot
      exact hroot rfl
    obtain ⟨c, hc⟩ := Option.isSome_iff_exists.mp hfirst
    rw [List.map_cons, map_fst_later,
      components_of_segments (segments_ofSegments (List.cons_ne_nil s rest') hslash), hsame, hc,
      List.filterMap_cons, List.filterMap_map]
    rfl

/-- A part of a path that begins with a segment that names something is read again as it is. -/
theorem components_ofSteps_of_steps {passed written dropped : List Step}
    (hsteps : p.steps = passed ++ (written ++ dropped))
    (hhead : ∀ step ∈ written.head?, step.2.isSome = true) :
    (ofSteps written).components = written.filterMap Prod.snd := by
  obtain ⟨s, rest, hseg⟩ := List.exists_cons_of_ne_nil p.segments_ne_nil
  have hslash : ∀ u ∈ s :: rest, '/' ∉ u :=
    fun u hu => p.slash_notMem_of_mem_segments (hseg ▸ hu)
  rw [steps_of_segments hseg] at hsteps
  cases passed with
  | cons first passed =>
    obtain ⟨-, htail⟩ := List.cons.inj hsteps
    obtain ⟨front, behind, rfl, -, hbehind⟩ := List.map_eq_append_iff.mp htail
    obtain ⟨back, after, rfl, rfl, -⟩ := List.map_eq_append_iff.mp hbehind
    refine components_ofSteps_later (fun u hu => hslash u ?_) fun u hu => hhead (later u) ?_
    · simp [hu]
    · rw [List.head?_map, Option.mem_def.mp hu]
      rfl
  | nil =>
    -- Nothing is passed, so the first segment is read in its own way.
    cases written with
    | nil => rfl
    | cons step written =>
      obtain ⟨rfl, htail⟩ := List.cons.inj hsteps
      obtain ⟨rest', after, rfl, rfl, -⟩ := List.map_eq_append_iff.mp htail
      have hslash' : ∀ u ∈ s :: rest', '/' ∉ u := by
        intro u hu
        rw [← List.cons_append] at hslash
        exact hslash u (List.mem_append_left after hu)
      exact components_ofSteps_first hslash' (fun hnil => (List.append_eq_nil_iff.mp hnil).1)
        (hhead _ rfl)

/-! ### Relative paths -/

theorem after?_skip : after? cs ((s, none) :: steps) = after? cs steps := by
  cases cs with
  | nil => rw [after?, after?, List.dropWhile_cons_of_pos rfl]
  | cons c cs =>
    rw [after?]
    exact nofun

/-- What `after?` finds stands behind steps that name the given components, and begins with a step
that names one. -/
theorem after?_eq_some (h : after? cs steps = some kept) :
    ∃ passed, steps = passed ++ kept ∧ passed.filterMap Prod.snd = cs ∧
      ∀ step ∈ kept.head?, step.2.isSome = true := by
  induction steps generalizing cs with
  | nil =>
    cases cs with
    | nil =>
      obtain rfl := Option.some.inj h
      exact ⟨[], rfl, rfl, nofun⟩
    | cons c cs => exact nomatch h
  | cons step steps ih =>
    obtain ⟨s, _ | d⟩ := step
    · rw [after?_skip] at h
      obtain ⟨passed, rfl, hpassed, hhead⟩ := ih h
      exact ⟨(s, none) :: passed, rfl, hpassed, hhead⟩
    · cases cs with
      | nil =>
        obtain rfl := Option.some.inj h
        exact ⟨[], rfl, rfl, by simp⟩
      | cons c cs =>
        rw [after?] at h
        split at h
        next hc =>
          obtain ⟨passed, rfl, hpassed, hhead⟩ := ih h
          refine ⟨(s, some d) :: passed, rfl, ?_, hhead⟩
          rw [List.filterMap_cons, hpassed, hc]
        next => exact nomatch h

theorem isSome_after? (h : cs <+: steps.filterMap Prod.snd) : (after? cs steps).isSome = true := by
  induction steps generalizing cs with
  | nil =>
    rw [List.filterMap_nil, List.prefix_nil] at h
    rw [h]
    rfl
  | cons step steps ih =>
    cases cs with
    | nil => rfl
    | cons c cs =>
      obtain ⟨s, _ | d⟩ := step
      · rw [after?_skip]
        exact ih h
      · rw [List.filterMap_cons, List.cons_prefix_cons] at h
        rw [after?, if_pos h.1]
        exact ih h.2

/-- The components behind a base are those of the path that is written from what is left. -/
theorem components_of_after? (h : after? base p.steps = some kept) :
    p.components = base ++ (ofSteps (trimEnd kept)).components := by
  obtain ⟨passed, hsteps, hpassed, hhead⟩ := after?_eq_some h
  obtain ⟨dropped, hkept, -⟩ := exists_eq_trimEnd_append kept
  have hwritten : (ofSteps (trimEnd kept)).components = (trimEnd kept).filterMap Prod.snd := by
    refine components_ofSteps_of_steps (hsteps.trans (congrArg (passed ++ ·) hkept)) ?_
    intro step hstep
    refine hhead step ?_
    rw [hkept, List.head?_append, Option.mem_def.mp hstep]
    rfl
  rw [components, hsteps, List.filterMap_append, hpassed, hwritten, filterMap_trimEnd]

/-- A path below a base leads on from it. -/
theorem components_relativeTo (h : base <+: p.components) :
    p.components = base ++ (p.relativeTo base).components := by
  obtain ⟨kept, hafter⟩ := Option.isSome_iff_exists.mp (isSome_after? h)
  rw [relativeTo, hafter]
  exact components_of_after? hafter

/-- A path that is not below a base stays as it is. -/
theorem relativeTo_of_not_prefix (h : ¬base <+: p.components) : p.relativeTo base = p := by
  rw [relativeTo]
  cases hafter : after? base p.steps with
  | none => rfl
  | some kept => exact absurd ⟨_, (components_of_after? hafter).symm⟩ h

end Path

end Steps

/-! ## Extensions -/

section Extensions

variable {p q : Path} {s t : Segment} {front back : List Segment} {extension : String}

theorem Component.isSome_ofSegment? (h : 2 ≤ s.length) : (ofSegment? s).isSome = true := by
  unfold ofSegment?
  rw [if_neg]
  · split
    · rfl
    · rfl
  · rintro (rfl | rfl)
    · exact absurd h (by decide)
    · exact absurd h (by decide)

namespace Path

theorem stem?_ne_nil : stem? s ≠ some [] := by
  unfold stem?
  split
  · exact nofun
  · next cs hne =>
    intro h
    exact hne (List.reverse_eq_nil_iff.mp (Option.some.inj h))

theorem stem?_subset {stem : Segment} (h : stem? s = some stem) : stem ⊆ s := by
  unfold stem? at h
  split at h
  · exact nomatch h
  · next cs _ =>
    rw [← Option.some.inj h]
    intro c hc
    have hcut := (List.dropWhile_sublist _).subset (List.mem_of_mem_drop (List.mem_reverse.mp hc))
    exact List.mem_reverse.mp hcut

/-- A name with an extension is a name. -/
theorem isSome_ofSegment?_extend (extension : String) (hne : s ≠ []) :
    (Component.ofSegment? (extend extension s)).isSome = true := by
  have hpos : 0 < ((stem? s).getD s).length := by
    rw [List.length_pos_iff]
    cases hstem : stem? s with
    | none => exact hne
    | some stem =>
      rintro rfl
      exact stem?_ne_nil hstem
  refine Component.isSome_ofSegment? ?_
  rw [extend, List.length_append, List.length_cons]
  omega

theorem slash_notMem_extend (hs : '/' ∉ s) (he : '/' ∉ extension.toList) :
    '/' ∉ extend extension s := by
  have hstem : '/' ∉ (stem? s).getD s := by
    cases h : stem? s with
    | none => exact hs
    | some stem => exact fun hc => hs (stem?_subset h hc)
  simpa [extend] using ⟨hstem, he⟩

/-- The name at the end of a path, with what stands before and behind it. -/
theorem exists_segments_of_name (h : (trimEnd p.steps).getLast? = some (s, some (.name t))) :
    ∃ back, p.segments = (trimEnd p.steps).dropLast.map Prod.fst ++ s :: back ∧
      Component.ofSegment? s = some (.name t) ∧
        ∀ u ∈ back, Component.ofSegment? u = none := by
  obtain ⟨dropped, hsteps, hnone⟩ := exists_eq_trimEnd_append p.steps
  obtain ⟨front, hfront⟩ := List.getLast?_eq_some_iff.mp h
  rw [hfront, List.append_assoc] at hsteps
  have hmem : (s, some (.name t)) ∈ p.steps := by
    rw [hsteps]
    exact List.mem_append_right front List.mem_cons_self
  refine ⟨dropped.map Prod.fst, ?_, ofSegment?_of_mem_steps hmem, fun u hu => ?_⟩
  · rw [← map_fst_steps, hfront, List.dropLast_concat]
    conv_lhs => rw [hsteps]
    simp
  · obtain ⟨step, hstep, rfl⟩ := List.mem_map.mp hu
    rw [← snd_of_mem_tail_steps (p := p) ?_]
    · exact hnone step hstep
    · rw [hsteps, ← List.append_assoc, List.tail_append_of_ne_nil (by simp)]
      exact List.mem_append_right _ hstep

/-- Paths that differ in the name at their end, and in what stands behind it, have the same
components before it. -/
theorem dropLast_components_eq (hp : p.segments = front ++ s :: back)
    (hq : q.segments = front ++ [t]) (hback : ∀ u ∈ back, Component.ofSegment? u = none)
    (hs : (Component.ofSegment? s).isSome = true) (ht : (Component.ofSegment? t).isSome = true) :
    p.components.dropLast = q.components.dropLast := by
  obtain ⟨c, hc⟩ := Option.isSome_iff_exists.mp hs
  obtain ⟨d, hd⟩ := Option.isSome_iff_exists.mp ht
  have hnone : back.filterMap Component.ofSegment? = [] := List.filterMap_eq_nil_iff.mpr hback
  cases front with
  | nil =>
    rw [components_of_segments hp, components_of_segments hq, Component.ofFirst?_of_isSome hs,
      Component.ofFirst?_of_isSome ht, hc, hd, hnone]
    rfl
  | cons u front =>
    rw [List.cons_append] at hp hq
    have hfirst : Component.ofFirst? u (front ++ s :: back) =
        Component.ofFirst? u (front ++ [t]) := Component.ofFirst?_congr (by simp)
    rw [components_of_segments hp, components_of_segments hq, hfirst]
    simp [hc, hd, hnone]

/-- A file that is named after another lies in the same directory. -/
theorem dropLast_components_withExtension (p : Path) (he : '/' ∉ extension.toList) :
    (p.withExtension extension).components.dropLast = p.components.dropLast := by
  simp only [withExtension]
  split
  next s t hlast =>
    obtain ⟨back, hseg, hname, hback⟩ := exists_segments_of_name hlast
    have hs : (Component.ofSegment? s).isSome = true := Option.isSome_of_eq_some hname
    have hslash : ∀ u ∈ p.segments, '/' ∉ u := fun u hu => p.slash_notMem_of_mem_segments hu
    rw [hseg] at hslash
    generalize (trimEnd p.steps).dropLast.map Prod.fst = front at hseg hslash
    have hsame : ∀ u, '/' ∉ u → (Component.ofSegment? u).isSome = true →
        (ofSegments (front ++ [u])).components.dropLast = p.components.dropLast := by
      intro u hu hsome
      refine (dropLast_components_eq hseg (segments_ofSegments (by simp) ?_) hback hs hsome).symm
      intro v hv
      obtain hv | hv := List.mem_append.mp hv
      · exact hslash v (List.mem_append_left _ hv)
      · rw [List.mem_singleton.mp hv]
        exact hu
    split
    · exact hsame _ (by decide) (by decide)
    · refine hsame _ (slash_notMem_extend ?_ he) (isSome_ofSegment?_extend extension ?_)
      · exact hslash s (List.mem_append_right front List.mem_cons_self)
      · rintro rfl
        exact nomatch hname
  next => rfl

end Path

end Extensions

end Cartridge.CommandLine
