/-
  Where declared fields are laid out.

  * `Field.segments` is the path of a field: the segments of its nested path, if it has one, and
    those of its name below that; it is where the field is laid out (`location_eq_segments`);
  * `Field.type_of_steps`: on the way there are objects, but for the end of the nested path.
-/
import Merchandising.Proofs.Text.Dotted
import Merchandising.Schema.Field

namespace Merchandising

namespace Field

/-- The segments of the nested path of a field, and of its name below that. -/
def segments (f : Field) : List String :=
  match f.nestedPath with
  | none => Text.split '.' f.name
  | some path => Text.split '.' path ++ Text.split '.' (relativeName path f.name)

theorem location_eq_segments (f : Field) : f.location = f.segments := by
  have hobjects : ∀ cs : List String, (cs.map fun c => (c, FieldType.object)).map Prod.fst = cs :=
    fun cs => by simp [Function.comp_def]
  unfold location steps segments
  cases f.nestedPath with
  | none =>
    dsimp only
    rw [hobjects, Text.dropLast_split]
  | some path =>
    dsimp only
    rw [List.map_append, List.map_cons, hobjects, hobjects]
    calc (Text.split '.' path).dropLast ++ (Text.split '.' path).getLastD "" ::
          (Text.split '.' (relativeName path f.name)).dropLast ++
            [(Text.split '.' (relativeName path f.name)).getLastD ""]
        = ((Text.split '.' path).dropLast ++ [(Text.split '.' path).getLastD ""]) ++
          ((Text.split '.' (relativeName path f.name)).dropLast ++
            [(Text.split '.' (relativeName path f.name)).getLastD ""]) := by simp
      _ = Text.split '.' path ++ Text.split '.' (relativeName path f.name) := by
        rw [Text.dropLast_split, Text.dropLast_split]

/-- The containers of a field are objects, but for the one at the end of its nested path. -/
theorem type_of_steps (f : Field) {i : Nat} {e : String × FieldType} (he : f.steps.1[i]? = some e) :
    e.2 = if f.nestedPath.map (fun path => (Text.split '.' path).length) = some (i + 1)
      then .nested else .object := by
  have hobjects : ∀ {cs : List String} {j : Nat},
      (cs.map fun c => (c, FieldType.object))[j]? = some e → e.2 = .object := by
    intro cs j h
    rw [List.getElem?_map, Option.map_eq_some_iff] at h
    obtain ⟨c, -, rfl⟩ := h
    rfl
  unfold steps at he
  cases hpath : f.nestedPath with
  | none =>
    rw [hpath] at he
    exact (hobjects he).trans (by simp)
  | some path =>
    rw [hpath] at he
    have hpos := List.length_pos_iff.2 (Text.split_ne_nil '.' path)
    rw [List.getElem?_append] at he
    simp only [List.length_map, List.length_dropLast] at he
    split at he
    · rw [if_neg (by simp; omega)]
      exact hobjects he
    · rw [List.getElem?_cons] at he
      split at he
      · rw [if_pos (by simp; omega), ← Option.some.inj he]
      · rw [if_neg (by simp; omega)]
        exact hobjects he

theorem segments_ne_nil (f : Field) : f.segments ≠ [] := by
  unfold segments
  cases f.nestedPath with
  | none => exact Text.split_ne_nil _ _
  | some path => simp [Text.split_ne_nil]

theorem dotless_segments {f : Field} {k : String} (hk : k ∈ f.segments) : '.' ∉ k.toList := by
  unfold segments at hk
  cases hpath : f.nestedPath with
  | none =>
    rw [hpath] at hk
    exact Text.notMem_split hk
  | some path =>
    rw [hpath] at hk
    rcases List.mem_append.1 hk with hk | hk
    · exact Text.notMem_split hk
    · exact Text.notMem_split hk

theorem segments_eq_steps (f : Field) : f.steps.1.map Prod.fst ++ [f.steps.2] = f.segments :=
  location_eq_segments f

theorem container_steps (f : Field) : ∀ e ∈ f.steps.1, e.2.isContainer = true := by
  intro e he
  obtain ⟨i, hi⟩ := List.getElem?_of_mem he
  rw [type_of_steps f hi]
  split <;> rfl

/-- The nested path of a field is at the start of its path. -/
theorem split_nestedPath {f : Field} {path : String} (hpath : f.nestedPath = some path) :
    Text.split '.' path <+: f.segments := by
  rw [segments, hpath]
  exact List.prefix_append _ _

/-- The nested path of a field is on the way to it. -/
theorem nested_proper (f : Field) {p : List String}
    (h : f.nestedPath.map (Text.split '.') = some p) :
    p ≠ [] ∧ p <+: f.segments ∧ p ≠ f.segments := by
  obtain ⟨path, hpath, rfl⟩ := Option.map_eq_some_iff.1 h
  refine ⟨Text.split_ne_nil _ _, split_nestedPath hpath, ?_⟩
  rw [segments, hpath]
  simpa using Text.split_ne_nil _ _

end Field

end Merchandising
