/-
  The codec of stored queries loses nothing.

  * `Fragment.doubles` and `StoredQuery.doubles` are the doubles in a fragment and a stored query;
    `doubles_toJson`: they are the doubles that are written;
  * `StoredQuery.relevant_toJson`: all members that are written are read;
  * `StoredQuery.decode_encode`: what is written is read back, unless it nests too deep;
  * `StoredQuery.codec_lossless`: so is what was read before, however that was written.

  A double that does not read back as a number would not do so as a part of anything, so that is
  assumed of the doubles of the stored query (`ReadsBack`).
-/
import Merchandising.Proofs.Query.Kept

namespace Merchandising

/-! ## Doubles -/

/-- The double that a value is, if it is one. -/
def Json.double? : Json → Option Float
  | .float x => some x
  | _ => none

/-- The doubles in a value. -/
def Json.doubles (j : Json) : List Float :=
  j.numbers.filterMap Json.double?

/-- The doubles in the members of a record. -/
def Json.membersDoubles (members : List (String × Json)) : List Float :=
  (Json.membersNumbers members).filterMap Json.double?

/-- The double of a value. -/
def Scalar.doubles : Scalar → List Float
  | .float x => [x]
  | _ => []

/-- The doubles of a score that is read from a field. -/
def FieldFactor.doubles (f : FieldFactor) : List Float :=
  f.factor :: f.missing.toList

/-- The doubles of the ends of a range. -/
def Bounds.doubles (b : Bounds) : List Float :=
  ([b.gt, b.gte, b.lt, b.lte].flatMap Option.toList).flatMap Scalar.doubles

mutual

/-- The doubles in a fragment. -/
def Fragment.doubles : Fragment → List Float
  | .mk _ query => query.doubles

/-- The doubles in a condition. -/
def Query.doubles : Query → List Float
  | .bool must should mustNot _ =>
    fragmentsDoubles must ++ fragmentsDoubles should ++ fragmentsDoubles mustNot
  | .term _ value => value.doubles
  | .terms _ values => values.flatMap Scalar.doubles
  | .range _ bounds => bounds.doubles
  | .nested _ inner => inner.doubles
  | .not inner => inner.doubles
  | .weighted fields _ _ _ => fields.entries.map Prod.snd
  | .scored inner functions _ _ => inner.doubles ++ functionsDoubles functions
  | _ => []

/-- The doubles in fragments. -/
def fragmentsDoubles : List Fragment → List Float
  | [] => []
  | f :: fs => f.doubles ++ fragmentsDoubles fs

/-- The doubles in score functions. -/
def functionsDoubles : List ScoreFunction → List Float
  | [] => []
  | .mk none weight factor :: fs =>
    weight.toList ++ factor.toList.flatMap FieldFactor.doubles ++ functionsDoubles fs
  | .mk (some filter) weight factor :: fs =>
    filter.doubles ++ weight.toList ++ factor.toList.flatMap FieldFactor.doubles ++
      functionsDoubles fs

end

/-- The doubles in a stored query. -/
def StoredQuery.doubles (e : StoredQuery) : List Float :=
  e.fragment.toList.flatMap Fragment.doubles

namespace Json

@[simp] theorem doubles_null : doubles .null = [] := rfl

@[simp] theorem doubles_int (n : Int) : doubles (.int n) = [] := rfl

@[simp] theorem doubles_float (x : Float) : doubles (.float x) = [x] := rfl

@[simp] theorem doubles_text (s : String) : doubles (.text s) = [] := rfl

@[simp] theorem doubles_record (members : List (String × Json)) :
    doubles (.record members) = membersDoubles members := rfl

@[simp] theorem doubles_list (items : List Json) :
    doubles (.list items) = items.flatMap doubles := by
  rw [doubles, numbers]
  induction items with
  | nil => rfl
  | cons j r ih => rw [listNumbers, List.filterMap_append, ih, List.flatMap_cons, doubles]

@[simp] theorem membersDoubles_nil : membersDoubles [] = [] := rfl

@[simp] theorem membersDoubles_cons (m : String × Json) (r : List (String × Json)) :
    membersDoubles (m :: r) = m.2.doubles ++ membersDoubles r := by
  rw [membersDoubles, membersNumbers, List.filterMap_append, doubles, membersDoubles]

@[simp] theorem membersDoubles_append (r r' : List (String × Json)) :
    membersDoubles (r ++ r') = membersDoubles r ++ membersDoubles r' := by
  induction r with
  | nil => rfl
  | cons m r ih => simp [ih]

@[simp] theorem membersDoubles_optionalMember {α : Type} (name : String) (write : α → Json)
    (o : Option α) :
    membersDoubles (Query.optionalMember name write o) =
      o.toList.flatMap fun a => (write a).doubles := by
  cases o <;> simp [Query.optionalMember]

@[simp] theorem membersDoubles_clauseMember (name : String) (js : List Json) :
    membersDoubles (Query.clauseMember name js) = js.flatMap doubles := by
  cases js <;> simp [Query.clauseMember]

@[simp] theorem doubles_kindRecord (kind : String) (fields : List (String × Json)) :
    doubles (Query.kindRecord kind fields) = membersDoubles fields := by
  simp [Query.kindRecord]

end Json

@[simp] theorem Scalar.doubles_toJson (v : Scalar) : v.toJson.doubles = v.doubles := by
  cases v <;> rfl

@[simp] theorem FieldFactor.doubles_toJson (f : FieldFactor) :
    (Query.factorJson f).doubles = f.doubles := by
  simp [Query.factorJson, doubles]

@[simp] theorem Bounds.doubles_toJson (b : Bounds) : (Query.boundsJson b).doubles = b.doubles := by
  simp [Query.boundsJson, doubles]

@[simp] theorem Weights.doubles_toJson (w : Weights) :
    (Query.weightsJson w).doubles = w.entries.map Prod.snd := by
  have hdoubles : ∀ es : List (String × Float),
      Json.membersDoubles (es.map fun e => (e.1, .float e.2)) = es.map Prod.snd := by
    intro es
    induction es with
    | nil => rfl
    | cons e es ih => simp [ih]
  exact hdoubles w.entries

mutual

theorem Fragment.doubles_toJson : ∀ f : Fragment, f.toJson.doubles = f.doubles
  | .mk name query => by simp [Fragment.toJson, Fragment.doubles, query.doubles_toJson]

/-- The doubles of a condition are the ones that are written. -/
theorem Query.doubles_toJson : ∀ q : Query, q.toJson.doubles = q.doubles
  | .bool must should mustNot minimum => by
    simp [Query.toJson, Query.doubles, doubles_fragmentsJson]
  | .term field value => by simp [Query.toJson, Query.doubles]
  | .terms field values => by simp [Query.toJson, Query.doubles, List.flatMap_map]
  | .range field bounds => by simp [Query.toJson, Query.doubles]
  | .nested path inner => by simp [Query.toJson, Query.doubles, inner.doubles_toJson]
  | .not inner => by simp [Query.toJson, Query.doubles, inner.doubles_toJson]
  | .present field => by simp [Query.toJson, Query.doubles]
  | .absent field => by simp [Query.toJson, Query.doubles]
  | .words field text fuzziness minimum => by simp [Query.toJson, Query.doubles, Query.matchOptions]
  | .weighted fields text fuzziness minimum => by
    simp [Query.toJson, Query.doubles, Query.matchOptions]
  | .scored inner functions scoreMode boostMode => by
    simp [Query.toJson, Query.doubles, inner.doubles_toJson, doubles_functionsJson, Query.modeJson]
  | .similar fields like minimum => by
    simp [Query.toJson, Query.doubles, Query.textsJson, List.flatMap_map]
  | .startsWith field value => by simp [Query.toJson, Query.doubles]
  | .pattern field value => by simp [Query.toJson, Query.doubles]

theorem doubles_fragmentsJson : ∀ fs : List Fragment,
    (fragmentsJson fs).flatMap Json.doubles = fragmentsDoubles fs
  | [] => rfl
  | f :: fs => by
    simp [fragmentsJson, fragmentsDoubles, f.doubles_toJson, doubles_fragmentsJson fs]

theorem doubles_functionsJson : ∀ fs : List ScoreFunction,
    (functionsJson fs).flatMap Json.doubles = functionsDoubles fs
  | [] => rfl
  | .mk none weight factor :: fs => by
    simp [functionsJson, functionsDoubles, doubles_functionsJson fs]
  | .mk (some filter) weight factor :: fs => by
    simp [functionsJson, functionsDoubles, filter.doubles_toJson, doubles_functionsJson fs]

end

namespace StoredQuery

open Json (Literal Each IsFinite IsSound ReadsBack)

theorem doubles_toJson (e : StoredQuery) : e.toJson.doubles = e.doubles := by
  have hids : (e.consulted.ids.map fun id => Json.int id.toNat).flatMap Json.doubles = [] := by
    simp [List.flatMap_map]
  obtain ⟨fragment, consulted⟩ := e
  cases fragment with
  | none => simp [toJson, doubles, fragmentJson, hids]
  | some f => simp [toJson, doubles, fragmentJson, f.doubles_toJson, hids]

theorem mem_doubles {e : StoredQuery} {x : Float} : x ∈ e.doubles ↔ .float x ∈ e.toJson.numbers := by
  rw [← doubles_toJson, Json.doubles, List.mem_filterMap]
  constructor
  · rintro ⟨n, hn, hx⟩
    cases n with
    | float y =>
      obtain rfl := Option.some.inj hx
      exact hn
    | _ => simp [Json.double?] at hx
  · exact fun h => ⟨_, h, rfl⟩

/-! ## What is written is read -/

/-- No member that is written is left out when the text is read. -/
theorem relevant_toJson (e : StoredQuery) : relevant e.toJson.toLiteral = e.toJson.toLiteral := by
  have hfragment : (fragmentJson e.fragment).toLiteral.keep ["name", "query"] =
      (fragmentJson e.fragment).toLiteral := by
    cases e.fragment with
    | none => rfl
    | some f =>
      obtain ⟨name, q⟩ := f
      cases name <;> rfl
  have hkeep : (Literal.record (Json.toMembers [("version", .int version.toNat),
      ("fragment", fragmentJson e.fragment),
      ("consulted", .list (e.consulted.ids.map fun id => Json.int id.toNat))])).keep
        ["version", "fragment", "consulted"] = e.toJson.toLiteral := rfl
  rw [relevant, toJson, Json.toLiteral, hkeep, toJson, Json.toLiteral]
  simp [Json.toMembers, hfragment]

/-- All numbers of a stored query are sound if its doubles are finite. -/
theorem each_isSound {e : StoredQuery} (h : ∀ x ∈ e.doubles, x.isFinite = true) :
    e.toJson.Each IsSound := by
  refine (kept e.ofJson?_toJson).2 fun n hn => ?_
  cases n with
  | float x => exact h x (mem_doubles.2 hn)
  | _ => trivial

/-- All numbers of a stored query read back if its doubles are finite and do. -/
theorem each_readsBack {e : StoredQuery} (h : ∀ x ∈ e.doubles, x.isFinite = true)
    (hreads : ∀ x ∈ e.doubles, ReadsBack (.float x)) : ∀ n ∈ e.toJson.numbers, ReadsBack n := by
  intro n hn
  have hsound := each_isSound h n hn
  cases n with
  | int n => exact Json.readsBack_int hsound.1 hsound.2
  | float x => exact hreads x (mem_doubles.2 hn)
  | _ => exact hsound.elim

/-- **What is written is read back, unless it nests too deep.** -/
theorem decode_encode {e : StoredQuery} (h : ∀ n ∈ e.toJson.numbers, ReadsBack n) :
    decode e.encode = if e.toJson.depth ≤ Json.maxDepth then .ok e else .error .malformed := by
  have hvalue := Json.value?_toLiteral e.toJson h Json.maxDepth
  have hparse : parse? e.encode = (e.toJson.toLiteral.value? Json.maxDepth).bind ofJson? := by
    unfold parse? encode
    rw [Json.literal?_print h, Option.bind_eq_bind, Option.bind_some, relevant_toJson]
    rfl
  rw [decode, hparse, hvalue]
  by_cases hd : e.toJson.depth ≤ Json.maxDepth
  · rw [if_pos hd, if_pos hd, Option.bind_some, ofJson?_toJson]
    exact if_pos rfl
  · rw [if_neg hd, if_neg hd]
    rfl

theorem eq_of_decode {raw : String} {e : StoredQuery} (h : decode raw = .ok e) :
    parse? raw = some (version, e) := by
  unfold decode at h
  split at h
  · nomatch h
  · split at h
    · rename_i hparse hv
      obtain rfl := Except.ok.inj h
      rw [hparse, hv]
    · nomatch h

/-- **The codec loses nothing.** -/
theorem codec_lossless :
    (∀ e : StoredQuery, (∀ x ∈ e.doubles, x.isFinite = true) →
      (∀ x ∈ e.doubles, ReadsBack (.float x)) →
      decode e.encode = if e.toJson.depth ≤ 127 then .ok e else .error .malformed) ∧
    ∀ (raw : String) (e : StoredQuery), decode raw = .ok e →
      parse? raw = some (2, e) ∧ (∀ x ∈ e.doubles, x.isFinite = true) ∧
        ((∀ x ∈ e.doubles, ReadsBack (.float x)) → decode e.encode = .ok e) := by
  refine ⟨fun e hfinite hreads => decode_encode (each_readsBack hfinite hreads), ?_⟩
  intro raw e h
  have hparse := eq_of_decode h
  obtain ⟨l, -, hj⟩ := Option.bind_eq_some_iff.1 hparse
  obtain ⟨j, hj, he⟩ := Option.bind_eq_some_iff.1 hj
  have ⟨hdepth, hsound⟩ := Json.sound_value? _ _ hj
  have ⟨hkept, hnumbers⟩ := kept he
  have hfinite : ∀ x ∈ e.doubles, x.isFinite = true := fun x hx =>
    hnumbers (fun n hn => (hsound n hn).isFinite) _ (mem_doubles.1 hx)
  refine ⟨hparse, hfinite, fun hreads => ?_⟩
  rw [decode_encode (each_readsBack hfinite hreads), if_pos]
  have : Json.maxDepth = 127 := rfl
  omega

end StoredQuery

/-- One and a half reads back: it is 15 by 10. -/
theorem Json.readsBack_three_halves : Json.ReadsBack (.float 1.5) := by
  have hprint : print (.float 1.5) = "1.5" := by decide +kernel
  have hliteral : literal? "1.5".toList = some (.number ⟨false, [1], [5], none⟩) := rfl
  have hscale : Numeral.scale? (Numeral.roundNat 15) (-1) = some 1.5 := by
    rw [Numeral.scale?, if_pos (by decide), if_neg (by decide)]
    exact congrArg some (by decide +kernel)
  rw [ReadsBack, hprint, parse?, hliteral]
  show ((Numeral.scale? (Numeral.roundNat 15) (-1)).map _).map float = _
  rw [hscale]
  rfl

namespace StoredQuery

/-- A labelled range with a double is read back, and so is what a list of two values stands for. -/
theorem codec_lossless_range :
    let bounds : Bounds := ⟨some (.float 1.5), none, none, some (.text "1.5")⟩
    let e : StoredQuery := ⟨some (.mk (some "virtual #3") (.range "price" bounds)), .ofList [5, 3]⟩
    decode e.encode = .ok e ∧ decode "[2, null]" = .ok ⟨none, ∅⟩ ∧
      decode (encode ⟨none, ∅⟩) = .ok ⟨none, ∅⟩ := by
  intro bounds e
  have hdoubles : e.doubles = [1.5] := rfl
  refine ⟨?_, rfl, ?_⟩
  · refine (codec_lossless.1 e ?_ ?_).trans (if_pos (by decide))
    · rw [hdoubles]
      exact List.forall_mem_singleton.2 (by decide +kernel)
    · rw [hdoubles]
      exact List.forall_mem_singleton.2 Json.readsBack_three_halves
  · exact (codec_lossless.2 "[2, null]" ⟨none, ∅⟩ rfl).2.2 (by simp [doubles])

end StoredQuery

end Merchandising
