/-
  What is read as a fragment is written no deeper than it was.

  * `Query.keeps_fields`: the fourteen kinds of conditions, if fragments and score functions inside
    them are such;
  * `Query.keeps_readWithin`, `Fragment.keeps`: conditions and fragments of any depth;
  * `StoredQuery.kept`: stored queries, up to the list of consulted ids, which is always written.
-/
import Merchandising.Proofs.Query.Sound

namespace Merchandising

open Json (Each IsFinite IsSound NoDeeper Within AllWithin Keeps keeps_text keeps_float keeps_word32 keeps_list
  ReadsField of_field of_fields₂ of_fields₃ of_fields₄ within_text within_required allWithin_optional
  allWithin_clauses noDeeper_record noDeeper_tagged depth_list_le depth_record_le each_list each_record)

/-! ## Conditions -/

namespace Query

variable {fragment : Json → Option Fragment} {function : Json → Option ScoreFunction}

theorem keeps_kindRecord {kind : String} {fields : List (String × Json)} {j : Json}
    (hj : 0 < j.depth) (h : AllWithin IsSound fields j) : NoDeeper IsSound (kindRecord kind fields) j :=
  noDeeper_record hj (.cons (within_text hj _) h)

theorem allWithin_matchOptions {j : Json} {fuzziness minimum : Option String}
    (h : ReadsField (Json.optional? Json.text?) j fuzziness)
    (h' : ReadsField (Json.optional? Json.text?) j minimum) :
    AllWithin IsSound (matchOptions fuzziness minimum) j :=
  .append (allWithin_optional keeps_text h) (allWithin_optional keeps_text h')

theorem allWithin_fragments {j : Json} {name : String} {fs : List Fragment}
    (hf : Keeps fragment Fragment.toJson)
    (h : ReadsField (Json.defaulted? [] (Json.listOf? fragment)) j fs) :
    AllWithin IsSound (clauseMember name (fragmentsJson fs)) j := by
  rw [fragmentsJson_eq]
  exact allWithin_clauses hf h

/-- **A condition is written no deeper than its fields were read**, if what stands inside is. -/
theorem keeps_fields (hf : Keeps fragment Fragment.toJson) (hs : Keeps function ScoreFunction.toJson)
    (kind : QueryKind) : Keeps (ofFields? fragment function kind) Query.toJson := by
  intro j q h
  cases kind with
  | bool =>
    obtain ⟨must, should, mustNot, minimum, hj, hmust, hshould, hnot, hmin, rfl⟩ :=
      of_fields₄ h fun _ _ _ _ => rfl
    refine keeps_kindRecord hj (((AllWithin.append ?_ ?_).append ?_).append ?_)
    · exact allWithin_fragments hf hmust
    · exact allWithin_fragments hf hshould
    · exact allWithin_fragments hf hnot
    · exact allWithin_optional keeps_word32 hmin
  | term =>
    obtain ⟨field, value, hj, -, hvalue, rfl⟩ := of_fields₂ h fun _ _ => rfl
    refine keeps_kindRecord hj (.cons (within_text hj _) (.cons ?_ .nil))
    exact within_required Scalar.keeps hvalue
  | terms =>
    obtain ⟨field, values, hj, -, hvalues, rfl⟩ := of_fields₂ h fun _ _ => rfl
    refine keeps_kindRecord hj (.cons (within_text hj _) (.cons ?_ .nil))
    exact within_required (keeps_list Scalar.keeps) hvalues
  | range =>
    obtain ⟨field, bounds, hj, -, hbounds, rfl⟩ := of_fields₂ h fun _ _ => rfl
    refine keeps_kindRecord hj (.cons (within_text hj _) (.cons ?_ .nil))
    exact within_required Bounds.keeps hbounds
  | nested =>
    obtain ⟨path, inner, hj, -, hinner, rfl⟩ := of_fields₂ h fun _ _ => rfl
    refine keeps_kindRecord hj (.cons (within_text hj _) (.cons ?_ .nil))
    exact within_required hf hinner
  | not =>
    obtain ⟨inner, hj, hinner, rfl⟩ := of_field h fun _ => rfl
    exact keeps_kindRecord hj (.cons (within_required hf hinner) .nil)
  | present | absent =>
    obtain ⟨field, hj, -, rfl⟩ := of_field h fun _ => rfl
    exact keeps_kindRecord hj (.cons (within_text hj _) .nil)
  | words =>
    obtain ⟨field, text, fuzziness, minimum, hj, -, -, hfuzziness, hmin, rfl⟩ :=
      of_fields₄ h fun _ _ _ _ => rfl
    refine keeps_kindRecord hj (.cons (within_text hj _) (.cons (within_text hj _) ?_))
    exact allWithin_matchOptions hfuzziness hmin
  | weighted =>
    obtain ⟨fields, text, fuzziness, minimum, hj, hfields, -, hfuzziness, hmin, rfl⟩ :=
      of_fields₄ h fun _ _ _ _ => rfl
    refine keeps_kindRecord hj (.cons ?_ (.cons (within_text hj _) ?_))
    · exact within_required Weights.keeps hfields
    · exact allWithin_matchOptions hfuzziness hmin
  | scored =>
    obtain ⟨inner, functions, scoreMode, boostMode, hj, hinner, hfunctions, -, -, rfl⟩ :=
      of_fields₄ h fun _ _ _ _ => rfl
    refine keeps_kindRecord hj (AllWithin.append (AllWithin.append (.cons ?_ (.cons ?_ .nil))
      (allWithin_mode hj _)) (allWithin_mode hj _))
    · exact within_required hf hinner
    · rw [functionsJson_eq]
      exact within_required (keeps_list hs) hfunctions
  | similar =>
    obtain ⟨fields, like, minimum, hj, hfields, hlike, hmin, rfl⟩ := of_fields₃ h fun _ _ _ => rfl
    refine keeps_kindRecord hj (.cons ?_ (.cons ?_ ?_))
    · exact within_required keeps_texts hfields
    · exact within_required keeps_texts hlike
    · exact allWithin_optional keeps_text hmin
  | startsWith | pattern =>
    obtain ⟨field, value, hj, -, -, rfl⟩ := of_fields₂ h fun _ _ => rfl
    exact keeps_kindRecord hj (.cons (within_text hj _) (.cons (within_text hj _) .nil))

end Query

theorem ScoreFunction.keeps_fields {fragment : Json → Option Fragment}
    (hf : Keeps fragment Fragment.toJson) :
    Keeps (ScoreFunction.ofFields? fragment) ScoreFunction.toJson := by
  intro j s h
  obtain ⟨filter, weight, factor, hj, hfilter, hweight, hfactor, rfl⟩ :=
    of_fields₃ h fun _ _ _ => rfl
  refine noDeeper_record hj ((AllWithin.append ?_ ?_).append ?_)
  · exact allWithin_optional hf hfilter
  · exact allWithin_optional keeps_float hweight
  · exact allWithin_optional FieldFactor.keeps hfactor

theorem Fragment.keeps_fields {query : Json → Option Query} (hq : Keeps query Query.toJson) :
    Keeps (Fragment.ofFields? query) Fragment.toJson := by
  intro j f h
  obtain ⟨name, q, hj, hname, hquery, rfl⟩ := of_fields₂ h fun _ _ => rfl
  refine noDeeper_record hj (AllWithin.append ?_ (.cons ?_ .nil))
  · exact allWithin_optional keeps_text hname
  · exact within_required hq hquery

theorem Query.keeps_readWithin (depth : Nat) (place : Json.Place) :
    Keeps (Query.readWithin depth place) Query.toJson := by
  induction depth generalizing place with
  | zero => exact fun _ _ h => nomatch h
  | succ depth ih =>
    intro j q h
    obtain ⟨⟨kind, fields⟩, htag, h⟩ := Option.bind_eq_some_iff.1 h
    have hf := Fragment.keeps_fields (ih .tagged)
    exact (Query.keeps_fields hf (ScoreFunction.keeps_fields hf) kind _ _ h).trans
      (noDeeper_tagged htag)

theorem Fragment.keeps : Keeps Fragment.ofJson? Fragment.toJson :=
  Fragment.keeps_fields fun _ _ h => Query.keeps_readWithin _ _ _ _ h

/-! ## Stored queries -/

/-- **What is read as a stored query is written no deeper than it was**, or two deep, which the list
    of consulted ids needs; and its numbers are sound if the doubles that were read are finite. -/
theorem StoredQuery.kept {j : Json} {v : UInt32} {e : StoredQuery}
    (h : StoredQuery.ofJson? j = some (v, e)) :
    e.toJson.depth ≤ max 2 j.depth ∧ (j.Each IsFinite → e.toJson.Each IsSound) := by
  obtain ⟨v', o, ids, hj, -, ho, -, heq⟩ := of_fields₃ h fun _ _ _ => rfl
  obtain ⟨-, rfl⟩ := Prod.mk.inj heq
  have hfragment : Within IsSound (fragmentJson o) j := by
    cases o with
    | none => exact ⟨hj, fun _ => by simp [fragmentJson, Each, Json.numbers]⟩
    | some f =>
      have hmember : AllWithin IsSound (Query.optionalMember "fragment" Fragment.toJson (some f)) j :=
        allWithin_optional Fragment.keeps ho
      exact hmember ("fragment", f.toJson) (by simp [Query.optionalMember])
  have hids : ∀ a ∈ (IdSet.ofList ids).ids.map fun id => Json.int id.toNat,
      a.depth = 0 ∧ a.Each IsSound := by
    intro a ha
    obtain ⟨id, -, rfl⟩ := List.mem_map.1 ha
    exact ⟨rfl, Json.each_int (Json.isSound_natural id.toNat_lt_size)⟩
  constructor
  · refine depth_record_le (by omega) fun m hm => ?_
    simp only [List.mem_cons, List.not_mem_nil, or_false] at hm
    rcases hm with rfl | rfl | rfl
    · exact Nat.lt_of_lt_of_le Nat.two_pos (Nat.le_max_left 2 _)
    · exact Nat.lt_of_lt_of_le hfragment.1 (Nat.le_max_right 2 _)
    · refine Nat.lt_of_le_of_lt (depth_list_le Nat.one_pos fun a ha => ?_)
        (Nat.lt_of_lt_of_le Nat.one_lt_two (Nat.le_max_left 2 _))
      rw [(hids a ha).1]
      exact Nat.one_pos
  · refine fun hs => each_record.2 fun m hm => ?_
    simp only [List.mem_cons, List.not_mem_nil, or_false] at hm
    rcases hm with rfl | rfl | rfl
    · exact Json.each_int (Json.isSound_natural (by decide))
    · exact hfragment.2 hs
    · exact each_list.2 fun a ha => (hids a ha).2

end Merchandising
