/-
  The paths on which compiling anew makes no difference.

  * `Agree` relates two paths that hold the same of some ids;
  * `Local` is compiling that looks at its path only for ids that it reports as consulted;
  * `Fresh.local_compile`: compiling anew is such, because it reports every id that it looks for, and
    what it does depends on nothing else of the path.
-/
import Merchandising.Proofs.Resolver.Anew

namespace Merchandising

/-! ## Paths that agree -/

/-- The paths hold the same of some ids. -/
def Agree (ids : List CategoryId) (path path' : IdSet) : Prop :=
  ∀ id ∈ ids, id ∈ path ↔ id ∈ path'

section
variable {ids ids' : List CategoryId} {path path' : IdSet}

theorem Agree.mono (h : Agree ids path path') (hs : ids' ⊆ ids) : Agree ids' path path' :=
  fun id hid => h id (hs hid)

theorem Agree.insert (h : Agree ids path path') (id : CategoryId) :
    Agree ids (path.insert id) (path'.insert id) := by
  intro x hx
  rw [IdSet.mem_insert, IdSet.mem_insert, h x hx]

/-- Paths without any of the ids agree on them. -/
theorem Agree.of_disjoint (h : ∀ id ∈ ids, id ∉ path) (h' : ∀ id ∈ ids, id ∉ path') :
    Agree ids path path' :=
  fun id hid => iff_of_false (h id hid) (h' id hid)

theorem Agree.look (h : Agree ids path path') : Compiled.look path ids = Compiled.look path' ids := by
  have hcut : (IdSet.ofList ids).filter (fun id => id ∈ path) =
      (IdSet.ofList ids).filter fun id => id ∈ path' := by
    refine IdSet.ext fun x => ?_
    simp only [IdSet.mem_filter, IdSet.mem_ofList, decide_eq_true_eq]
    exact and_congr_right fun hx => h x hx
  rw [Compiled.look, Compiled.look, hcut]

end

namespace Compiled

theorem consulted_look (path : IdSet) (ids : List CategoryId) :
    ids ⊆ (look path ids).consulted.ids := by
  intro id hid
  exact IdSet.mem_ofList.2 hid

theorem consulted_absorb_left (a b : Compiled) :
    a.consulted.ids ⊆ (a.absorb b).consulted.ids :=
  fun _ h => IdSet.mem_union.2 (Or.inl h)

theorem consulted_absorb_right (a b : Compiled) :
    b.consulted.ids ⊆ (a.absorb b).consulted.ids :=
  fun _ h => IdSet.mem_union.2 (Or.inr h)

theorem consulted_foldl (bs : List Compiled) (a : Compiled) :
    a.consulted.ids ⊆ (bs.foldl absorb a).consulted.ids ∧
      ∀ b ∈ bs, b.consulted.ids ⊆ (bs.foldl absorb a).consulted.ids := by
  induction bs generalizing a with
  | nil => exact ⟨List.Subset.refl _, by simp⟩
  | cons b bs ih =>
    obtain ⟨h, hs⟩ := ih (a.absorb b)
    refine ⟨List.Subset.trans (consulted_absorb_left a b) h, fun b' hb' => ?_⟩
    rcases List.mem_cons.1 hb' with rfl | hb'
    · exact List.Subset.trans (consulted_absorb_right a b') h
    · exact hs b' hb'

end Compiled

/-- Compiling that looks at its path only for the ids that it reports as consulted. -/
def Local (f : IdSet → Except Failure Compiled) : Prop :=
  ∀ path path' r, f path = .ok r → Agree r.consulted.ids path path' → f path' = .ok r

namespace Fresh

variable {settings : Settings} {catalog : Catalog} {translator : Translator} {ctx : Context}
  {r : Category → IdSet → Except Failure Compiled} (hr : ∀ c, Local (r c))
include hr

theorem local_rootQuery (c : Category) :
    Local ((compiler settings catalog translator ctx r).rootQuery c) := by
  intro path path' x h ha
  rw [rootQuery_eq_ok] at h ⊢
  cases hroot : root? catalog ctx.store c with
  | none =>
    simp only [hroot] at h ⊢
    exact h
  | some root =>
    simp only [hroot] at h ⊢
    have hlook : Compiled.look path root.path = .look path' root.path := by
      refine (ha.mono ?_).look
      split at h
      · obtain ⟨y, -, rfl⟩ := h
        exact List.Subset.trans (Compiled.consulted_look path root.path) (Compiled.consulted_absorb_right y _)
      · subst h
        exact Compiled.consulted_look path root.path
    rw [← hlook]
    split at h
    · obtain ⟨y, hy, rfl⟩ := h
      rw [if_pos ‹_›]
      exact ⟨y, hr root _ _ y hy (ha.mono (Compiled.consulted_absorb_left y _)), rfl⟩
    · rw [if_neg ‹_›]
      exact h

theorem local_baseQuery (c : Category) :
    Local ((compiler settings catalog translator ctx r).baseQuery c) := by
  intro path path' x h ha
  unfold Compiler.baseQuery at h ⊢
  split at h
  · rw [if_pos ‹_›]
    exact h
  · rw [if_neg ‹_›]
    split at h
    · rw [if_pos ‹_›]
      rw [virtualQuery_eq_ok] at h ⊢
      obtain ⟨own, y, hown, hy, rfl⟩ := h
      exact ⟨own, y, hown, local_rootQuery hr c _ _ y hy ha, rfl⟩
    · rw [if_neg ‹_›]
      exact h

theorem local_foldChildren (c : Category) (base : Fragment) :
    Local ((compiler settings catalog translator ctx r).foldChildren c base) := by
  intro path path' x h ha
  rw [foldChildren_eq_ok] at h ⊢
  obtain ⟨resolved, statics, hresolved, hstatics, rfl⟩ := h
  have ⟨hseen, hall⟩ := Compiled.consulted_foldl resolved
    (.look path ((catalog.contributors ctx.store c).filterMap Category.id))
  have hids := ha.mono (List.Subset.trans (Compiled.consulted_look _ _) hseen)
  have hopen : ((catalog.contributors ctx.store c).filter fun d => d.id.any fun id => id ∉ path) =
      (catalog.contributors ctx.store c).filter fun d => d.id.any fun id => id ∉ path' := by
    refine List.filter_congr fun d hd => ?_
    cases hid : d.id with
    | none => rfl
    | some id => simp [hids id (List.mem_filterMap.2 ⟨d, hd, hid⟩)]
  rw [← hopen, ← hids.look]
  refine ⟨resolved, statics, ?_, hstatics, rfl⟩
  -- what a descendant reports is a part of what the whole reports
  have hboth := (List.forall₂_and_left _ _).2 ⟨hall, (List.Forall₂.flip (R := flip _) hresolved)⟩
  exact List.Forall₂.flip (hboth.imp fun y d ⟨hy, hd⟩ => hr d _ _ y hd (ha.mono hy))

theorem local_compileOpen (c : Category) :
    Local ((compiler settings catalog translator ctx r).compileOpen c) := by
  intro path path' x h ha
  rw [compileOpen_eq_ok] at h ⊢
  split at h
  · rw [if_pos ‹_›]
    exact h
  · rw [if_neg ‹_›]
    obtain ⟨base, hbase, h⟩ := h
    cases hquery : base.query with
    | none =>
      simp only [hquery] at h
      subst h
      refine ⟨base, local_baseQuery hr c _ _ base hbase ha, ?_⟩
      simp only [hquery]
    | some f =>
      simp only [hquery] at h
      obtain ⟨folded, hfolded, rfl⟩ := h
      refine ⟨base, local_baseQuery hr c _ _ base hbase
        (ha.mono (Compiled.consulted_absorb_right folded base)), ?_⟩
      simp only [hquery]
      exact ⟨folded, local_foldChildren hr c f _ _ folded hfolded
        (ha.mono (Compiled.consulted_absorb_left folded base)), rfl⟩

theorem local_compile_of (c : Category) :
    Local ((compiler settings catalog translator ctx r).compile c) := by
  intro path path' x h ha
  rw [compile_eq_ok] at h ⊢
  cases hid : c.id with
  | none =>
    simp only [hid] at h ⊢
    exact local_compileOpen hr c _ _ _ h ha
  | some id =>
    simp only [hid] at h ⊢
    have hlook : Agree [id] path path' := by
      refine ha.mono ?_
      split at h
      · subst h
        exact Compiled.consulted_look path [id]
      · obtain ⟨y, -, rfl⟩ := h
        exact List.Subset.trans (Compiled.consulted_look path [id]) (Compiled.consulted_absorb_right y _)
    have hmem : id ∈ path ↔ id ∈ path' := hlook id (by simp)
    rw [← hlook.look]
    split at h
    · rw [if_pos (hmem.1 ‹_›)]
      exact h
    · obtain ⟨y, hy, rfl⟩ := h
      rw [if_neg fun hp => ‹id ∉ path› (hmem.2 hp)]
      refine ⟨y, local_compileOpen hr c _ _ y hy (Agree.insert ?_ id), rfl⟩
      exact ha.mono (Compiled.consulted_absorb_left y _)

omit hr

/-- **Compiling anew looks at its path only for the ids that it reports as consulted.** -/
theorem local_compile (settings : Settings) (catalog : Catalog) (translator : Translator)
    (ctx : Context) (c : Category) : Local (compile settings catalog translator ctx c) := by
  have hresolve : ∀ n c, Local (resolve settings catalog translator ctx n c) := by
    intro n
    induction n with
    | zero => exact fun _ _ _ _ h => nomatch h
    | succ n ih => exact fun c => local_compile_of ih c
  exact hresolve _ c

end Fresh

end Merchandising
