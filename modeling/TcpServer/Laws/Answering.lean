import TcpServer.ControllerLayer.RequestHandler

/-!
# What the handler reads of a body

The handler answers what it cannot route and what fails its checks; but it lets escape the exception of
a body that is not JSON, and it checks the fields of a body only if they are there, so that a missing one
ends in an exception as well. `Readable` are the requests from which it comes back (`returned_iff`).

What is not in here: the handler waits for `server_mutex` first, and the operation it calls for the
session table (`Laws/Replying`).
-/

namespace TcpServer

open RequestHandler

/-! ## The body -/

/-- A field passes its check: it is absent, or an unsigned number. -/
def fieldValid (js : Json) (key : String) : Bool := (js.find? key).all Json.isNumberUnsigned

/-- The four fields pass their checks. -/
def paramsValid (js : Json) : Bool := ["id", "count", "sessionId", "order_sum"].all (fieldValid js)

theorem checkParam_eq (key : String) (js : Json) :
    checkParam key js = .ok (fieldValid js key, js) := by
  rw [checkParam, Json.contains, fieldValid]
  cases h : js.find? key with
  | none => rfl
  | some v =>
    rw [Option.isSome_some, if_pos rfl, Json.subscript_of_find h]
    rfl

/-- `check_params` never throws, and leaves the body as it was. -/
theorem checkParams_eq (js : Json) : checkParams js = .ok (paramsValid js, js) := by
  have loop : ∀ (keys : List String) (ok : Bool),
      keys.foldlM (fun r key => if r.1 then checkParam key r.2 else .ok r) (ok, js) =
        (.ok (ok && keys.all (fieldValid js), js) : Except Abort (Bool × Json)) := by
    intro keys
    induction keys with
    | nil =>
      intro ok
      rw [List.all_nil, Bool.and_true]
      rfl
    | cons key keys ih =>
      intro ok
      rw [List.foldlM_cons, List.all_cons]
      cases ok with
      | true =>
        rw [if_pos rfl, checkParam_eq, ok_bind, ih, Bool.true_and]
      | false => exact ih false
  exact loop _ true

/-- A field that passes its check is read, or its absence throws. -/
theorem readSizeT_valid (undef : ℚ → SizeT) {js : Json} {key : String}
    (h : fieldValid js key = true) :
    readSizeT undef js key =
      match js.unsigned? key with
      | some n => .ok (n, js)
      | none => .error .typeError := by
  rw [readSizeT]
  cases hfind : js.find? key with
  | none =>
    have habsent : js.unsigned? key = none := by rw [Json.unsigned?, hfind]
    rw [habsent]
    rcases Json.subscript_of_not_find hfind with ⟨js', hnull⟩ | hthrow
    · rw [hnull]
      rfl
    · rw [hthrow]
      rfl
  | some v =>
    rw [fieldValid, hfind] at h
    cases v with
    | numberUnsigned n =>
      have hpresent : js.unsigned? key = some n := by rw [Json.unsigned?, hfind]
      rw [hpresent, Json.subscript_of_find hfind]
      rfl
    | _ => cases h

theorem readSizeT_ok (undef : ℚ → SizeT) {js js' : Json} {key : String} {n : SizeT}
    (h : fieldValid js key = true) :
    readSizeT undef js key = .ok (n, js') ↔ js.unsigned? key = some n ∧ js = js' := by
  rw [readSizeT_valid undef h]
  cases js.unsigned? key with
  | none => simp only [reduceCtorEq, false_and]
  | some m => simp only [Except.ok.injEq, Prod.mk.injEq, Option.some.injEq]

theorem parseBody_ok {parse : String → Option Json} {body : String} {js : Json} :
    parseBody parse body = .ok js ↔ parse body = some js := by
  rw [parseBody]
  cases parse body with
  | none => simp only [reduceCtorEq]
  | some js' => simp only [Except.ok.injEq, Option.some.injEq]

theorem fieldValid_of_params {js : Json} (h : paramsValid js = true) {key : String}
    (hkey : key ∈ ["id", "count", "sessionId", "order_sum"]) : fieldValid js key = true :=
  List.all_eq_true.mp h key hkey

/-- Which arguments `Buy` and `Remove` are called with. -/
theorem readCart_ok {undef : ℚ → SizeT} {js : Json} (h : paramsValid js = true)
    {r : SizeT × SizeT × SizeT} :
    readCart undef js = .ok r ↔ js.unsigned? "id" = some r.1 ∧ js.unsigned? "count" = some r.2.1 ∧
      js.unsigned? "sessionId" = some r.2.2 := by
  have field := @fieldValid_of_params js h
  constructor
  · intro hread
    obtain ⟨⟨i, js₁⟩, readId, hread⟩ := bind_eq_ok.mp hread
    obtain ⟨hi, rfl⟩ := (readSizeT_ok undef (field (by decide))).mp readId
    obtain ⟨⟨c, js₂⟩, readCount, hread⟩ := bind_eq_ok.mp hread
    obtain ⟨hc, rfl⟩ := (readSizeT_ok undef (field (by decide))).mp readCount
    obtain ⟨⟨s, js₃⟩, readSession, hread⟩ := bind_eq_ok.mp hread
    obtain ⟨hs, rfl⟩ := (readSizeT_ok undef (field (by decide))).mp readSession
    obtain rfl := Except.ok.inj hread
    exact ⟨hi, hc, hs⟩
  · rintro ⟨hi, hc, hs⟩
    have readId := (readSizeT_ok undef (field (by decide))).mpr ⟨hi, rfl⟩
    have readCount := (readSizeT_ok undef (field (by decide))).mpr ⟨hc, rfl⟩
    have readSession := (readSizeT_ok undef (field (by decide))).mpr ⟨hs, rfl⟩
    exact bind_eq_ok.mpr ⟨_, readId, bind_eq_ok.mpr ⟨_, readCount,
      bind_eq_ok.mpr ⟨_, readSession, rfl⟩⟩⟩

/-- Which arguments `MakeOrder` is called with. -/
theorem readOrder_ok {undef : ℚ → SizeT} {js : Json} (h : paramsValid js = true)
    {r : SizeT × SizeT} :
    readOrder undef js = .ok r ↔
      js.unsigned? "order_sum" = some r.1 ∧ js.unsigned? "sessionId" = some r.2 := by
  have field := @fieldValid_of_params js h
  constructor
  · intro hread
    obtain ⟨⟨o, js₁⟩, readSum, hread⟩ := bind_eq_ok.mp hread
    obtain ⟨ho, rfl⟩ := (readSizeT_ok undef (field (by decide))).mp readSum
    obtain ⟨⟨s, js₂⟩, readSession, hread⟩ := bind_eq_ok.mp hread
    obtain ⟨hs, rfl⟩ := (readSizeT_ok undef (field (by decide))).mp readSession
    obtain rfl := Except.ok.inj hread
    exact ⟨ho, hs⟩
  · rintro ⟨ho, hs⟩
    have readSum := (readSizeT_ok undef (field (by decide))).mpr ⟨ho, rfl⟩
    have readSession := (readSizeT_ok undef (field (by decide))).mpr ⟨hs, rfl⟩
    exact bind_eq_ok.mpr ⟨_, readSum, bind_eq_ok.mpr ⟨_, readSession, rfl⟩⟩

/-! ## When the handler comes back -/

/-- A handler's start: the server's table, and no effect so far. -/
def Front.of (t : Table) : Front := { table := t, effects := [] }

/-- The body has what a `Buy` or a `Remove` reads. -/
def HasCart (js : Json) : Prop :=
  ∃ i c s, js.unsigned? "id" = some i ∧ js.unsigned? "count" = some c ∧
    js.unsigned? "sessionId" = some s

/-- The body has what a `MakeOrder` reads. -/
def HasOrder (js : Json) : Prop :=
  ∃ o s, js.unsigned? "order_sum" = some o ∧ js.unsigned? "sessionId" = some s

/-- The request is a GET; or its body is JSON, and fails a check, or has what the route reads. -/
def Readable (parse : String → Option Json) (req : Request) : Prop :=
  req.method = .get ∨ ∃ js, parse req.body = some js ∧ (paramsValid js = true →
    (req.method = .post → req.target = "/buy" → HasCart js) ∧
      (req.method = .post → req.target = "/make_order" → HasOrder js) ∧
        (req.method = .delete_ → req.target = "/remove" → HasCart js))

/-- The handler has come back, and not by an exception. -/
def Returned (r : EStateM.Result Abort Front Unit) : Prop := ∃ front, r = .ok () front

section Return

variable {t : Table} {undef : ℚ → SizeT}

theorem returned_respond (r : Response) : Returned (respond r (Front.of t)) := ⟨_, rfl⟩

theorem returned_emit (c : Call) : Returned (emit c (Front.of t)) := ⟨_, rfl⟩

theorem returned_attempt {X : Type} {x : Except Abort X} {f : X → Handler Unit} :
    Returned ((attempt x >>= f) (Front.of t)) ↔ ∃ a, x = .ok a ∧ Returned (f a (Front.of t)) := by
  cases x with
  | ok a =>
    constructor
    · intro h
      exact ⟨a, rfl, h⟩
    · rintro ⟨b, hb, h⟩
      obtain rfl := Except.ok.inj hb
      exact h
  | error e =>
    constructor
    · rintro ⟨_, h⟩
      cases h
    · rintro ⟨_, h, _⟩
      cases h

theorem returned_cart {js : Json} (hvalid : paramsValid js = true)
    (call : SizeT × SizeT × SizeT → Call) :
    Returned ((attempt (readCart undef js) >>= fun r => emit (call r)) (Front.of t)) ↔
      HasCart js := by
  rw [returned_attempt]
  constructor
  · rintro ⟨r, hread, _⟩
    exact ⟨_, _, _, (readCart_ok hvalid).mp hread⟩
  · rintro ⟨i, c, s, fields⟩
    exact ⟨(i, c, s), (readCart_ok hvalid).mpr fields, returned_emit _⟩

theorem returned_order {js : Json} (hvalid : paramsValid js = true) :
    Returned ((attempt (readOrder undef js) >>= fun r => emit (.makeOrder r.1 r.2)) (Front.of t)) ↔
      HasOrder js := by
  rw [returned_attempt]
  constructor
  · rintro ⟨r, hread, _⟩
    exact ⟨_, _, (readOrder_ok hvalid).mp hread⟩
  · rintro ⟨o, s, fields⟩
    exact ⟨(o, s), (readOrder_ok hvalid).mpr fields, returned_emit _⟩

/-- **The handler comes back exactly from readable requests**, once it has the mutex: for every method,
target and body. -/
theorem returned_iff (parse : String → Option Json) (req : Request) :
    Returned (handleRequestOn parse undef emit req (Front.of t)) ↔ Readable parse req := by
  rw [handleRequestOn, Readable]
  by_cases hget : req.method = .get
  · rw [if_pos hget]
    refine iff_of_true ?_ (.inl hget)
    split
    next => exact returned_emit _
    next => exact returned_respond _
  · rw [if_neg hget, returned_attempt]
    simp only [hget, false_or]
    refine exists_congr fun js => and_congr parseBody_ok ?_
    rw [returned_attempt]
    simp only [checkParams_eq, Except.ok.injEq, exists_eq_left']
    cases hvalid : paramsValid js with
    | false =>
      refine iff_of_true (returned_respond _) fun h => nomatch h
    | true =>
      simp only [Bool.not_true, Bool.false_eq_true, if_false, forall_const]
      by_cases hpost : req.method = .post
      · rw [if_pos hpost]
        by_cases hbuy : req.target = "/buy"
        · simp only [hpost, hbuy, if_true, forall_const, reduceCtorEq, String.reduceEq, false_imp_iff,
            and_true]
          exact returned_cart hvalid _
        · rw [if_neg hbuy]
          by_cases horder : req.target = "/make_order"
          · simp only [hpost, horder, if_true, forall_const, reduceCtorEq, String.reduceEq,
              false_imp_iff, and_true, true_and]
            exact returned_order hvalid
          · rw [if_neg horder]
            refine iff_of_true (returned_respond _) ⟨fun _ h => absurd h hbuy,
              fun _ h => absurd h horder, fun h => ?_⟩
            cases hpost.symm.trans h
      · rw [if_neg hpost]
        by_cases hdelete : req.method = .delete_
        · rw [if_pos hdelete]
          by_cases hremove : req.target = "/remove"
          · simp only [hdelete, hremove, if_true, forall_const, reduceCtorEq, false_imp_iff, true_and]
            exact returned_cart hvalid _
          · rw [if_neg hremove]
            exact iff_of_true (returned_respond _) ⟨fun h => absurd h hpost,
              fun h => absurd h hpost, fun _ h => absurd h hremove⟩
        · rw [if_neg hdelete]
          exact iff_of_true (returned_respond _) ⟨fun h => absurd h hpost,
            fun h => absurd h hpost, fun h => absurd h hdelete⟩

end Return

end TcpServer
