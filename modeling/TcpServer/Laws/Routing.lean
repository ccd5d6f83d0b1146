import TcpServer.Laws.Answering

/-!
# Routing and validation

Which call a request becomes. `Routes` says it in terms of the request alone: the method, the target,
and a body that is a JSON object with the fields the operation reads, unsigned, in which the fields it
does not read pass their checks as well. The handler does one thing (`handler_cases`): it makes the
call a request routes to, or gives one response, or throws; so it makes these calls and no others,
whatever becomes of a call (`routing_exact`).
-/

namespace TcpServer

open RequestHandler

/-! ## Where a request goes -/

/-- The arguments of a `Buy` or a `Remove`, in a body that passes its checks. -/
structure CartBody (js : Json) (i c : SizeT) (s : SessionId) : Prop where
  id : js.unsigned? "id" = some i
  count : js.unsigned? "count" = some c
  sessionId : js.unsigned? "sessionId" = some s
  orderSum : fieldValid js "order_sum" = true

/-- The arguments of a `MakeOrder`, in a body that passes its checks. -/
structure OrderBody (js : Json) (o : SizeT) (s : SessionId) : Prop where
  orderSum : js.unsigned? "order_sum" = some o
  sessionId : js.unsigned? "sessionId" = some s
  id : fieldValid js "id" = true
  count : fieldValid js "count" = true

/-- The body parses to a JSON object of a kind. -/
def HasBody (parse : String → Option Json) (req : Request) (p : Json → Prop) : Prop :=
  ∃ members, parse req.body = some (.object members) ∧ p (.object members)

/-- The call a request becomes. -/
def Routes (parse : String → Option Json) (req : Request) : Call → Prop
  | .getAllItemDescription => req.method = .get ∧ req.target = "/get_description"
  | .buy i c s => req.method = .post ∧ req.target = "/buy" ∧ HasBody parse req (CartBody · i c s)
  | .remove i c s =>
    req.method = .delete_ ∧ req.target = "/remove" ∧ HasBody parse req (CartBody · i c s)
  | .makeOrder o s =>
    req.method = .post ∧ req.target = "/make_order" ∧ HasBody parse req (OrderBody · o s)

/-- Only an object has fields. -/
theorem object_of_unsigned {js : Json} {key : String} {n : SizeT} (h : js.unsigned? key = some n) :
    ∃ members, js = .object members := by
  cases js with
  | object members => exact ⟨members, rfl⟩
  | _ => cases h

/-- A field that is an unsigned number passes its check. -/
theorem fieldValid_of_unsigned {js : Json} {key : String} {n : SizeT}
    (h : js.unsigned? key = some n) : fieldValid js key = true := by
  rw [Json.unsigned?] at h
  rw [fieldValid]
  cases hfind : js.find? key with
  | none => rfl
  | some v =>
    rw [hfind] at h
    cases v with
    | numberUnsigned m => rfl
    | _ => cases h

theorem paramsValid_iff {js : Json} :
    paramsValid js = true ↔ fieldValid js "id" = true ∧ fieldValid js "count" = true ∧
      fieldValid js "sessionId" = true ∧ fieldValid js "order_sum" = true := by
  simp only [paramsValid, List.all_cons, List.all_nil, Bool.and_true, Bool.and_eq_true]

theorem CartBody.valid {js : Json} {i c : SizeT} {s : SessionId} (h : CartBody js i c s) :
    paramsValid js = true :=
  paramsValid_iff.mpr ⟨fieldValid_of_unsigned h.id, fieldValid_of_unsigned h.count,
    fieldValid_of_unsigned h.sessionId, h.orderSum⟩

theorem OrderBody.valid {js : Json} {o : SizeT} {s : SessionId} (h : OrderBody js o s) :
    paramsValid js = true :=
  paramsValid_iff.mpr ⟨h.id, h.count, fieldValid_of_unsigned h.sessionId,
    fieldValid_of_unsigned h.orderSum⟩

/-- `Buy` and `Remove` are called with the arguments of a body that passes its checks. -/
theorem readCart_body {undef : ℚ → SizeT} {js : Json} (hvalid : paramsValid js = true) {i c : SizeT}
    {s : SessionId} : readCart undef js = .ok (i, c, s) ↔ CartBody js i c s := by
  rw [readCart_ok hvalid]
  constructor
  · rintro ⟨hi, hc, hs⟩
    exact ⟨hi, hc, hs, (paramsValid_iff.mp hvalid).2.2.2⟩
  · intro h
    exact ⟨h.id, h.count, h.sessionId⟩

theorem readOrder_body {undef : ℚ → SizeT} {js : Json} (hvalid : paramsValid js = true) {o : SizeT}
    {s : SessionId} : readOrder undef js = .ok (o, s) ↔ OrderBody js o s := by
  rw [readOrder_ok hvalid]
  constructor
  · rintro ⟨ho, hs⟩
    exact ⟨ho, hs, (paramsValid_iff.mp hvalid).1, (paramsValid_iff.mp hvalid).2.1⟩
  · intro h
    exact ⟨h.orderSum, h.sessionId⟩

/-! ## What the handler does -/

section Handle

variable {parse : String → Option Json} {undef : ℚ → SizeT} {call : Call → Handler Unit}
  {req : Request}

theorem attempt_ok {X : Type} (x : X) (f : X → Handler Unit) : (attempt (.ok x) >>= f) = f x := rfl

/-- Past the checks of the body. -/
theorem handle_checked {js : Json} (hget : req.method ≠ .get) (hparse : parse req.body = some js)
    (hvalid : paramsValid js = true) :
    handleRequestOn parse undef call req =
      if req.method = .post then
        if req.target = "/buy" then
          attempt (readCart undef js) >>= fun r => call (.buy r.1 r.2.1 r.2.2)
        else if req.target = "/make_order" then
          attempt (readOrder undef js) >>= fun r => call (.makeOrder r.1 r.2)
        else notFound req.target
      else if req.method = .delete_ then
        if req.target = "/remove" then
          attempt (readCart undef js) >>= fun r => call (.remove r.1 r.2.1 r.2.2)
        else notFound req.target
      else unsupportedMethod "unsupported_method" := by
  rw [handleRequestOn, if_neg hget, parseBody_ok.mpr hparse, attempt_ok, checkParams_eq, attempt_ok,
    hvalid]
  rfl

/-- The handler makes the call its request routes to. -/
theorem handler_of_routes {c : Call} (h : Routes parse req c) :
    handleRequestOn parse undef call req = call c := by
  cases c with
  | getAllItemDescription => rw [handleRequestOn, if_pos h.1, if_pos h.2]
  | buy i c s =>
    obtain ⟨hpost, htarget, members, hparse, body⟩ := h
    have hget : req.method ≠ .get := by
      rw [hpost]
      decide
    rw [handle_checked hget hparse body.valid, if_pos hpost, if_pos htarget,
      (readCart_body body.valid).mpr body, attempt_ok]
  | remove i c s =>
    obtain ⟨hdelete, htarget, members, hparse, body⟩ := h
    have hget : req.method ≠ .get := by
      rw [hdelete]
      decide
    have hpost : req.method ≠ .post := by
      rw [hdelete]
      decide
    rw [handle_checked hget hparse body.valid, if_neg hpost, if_pos hdelete, if_pos htarget,
      (readCart_body body.valid).mpr body, attempt_ok]
  | makeOrder o s =>
    obtain ⟨hpost, htarget, members, hparse, body⟩ := h
    have hget : req.method ≠ .get := by
      rw [hpost]
      decide
    have hbuy : req.target ≠ "/buy" := by
      rw [htarget]
      decide
    rw [handle_checked hget hparse body.valid, if_pos hpost, if_neg hbuy, if_pos htarget,
      (readOrder_body body.valid).mpr body, attempt_ok]

/-- The handler does without a call: it gives one response or throws, whatever the calls do. -/
def Refuses (parse : String → Option Json) (undef : ℚ → SizeT) (req : Request) : Prop :=
  (∃ r, ∀ call, handleRequestOn parse undef call req = respond r) ∨
    ∃ e, ∀ call, handleRequestOn parse undef call req = throw e

/-- Reading the arguments of a call: they are in the body, or the handler throws. -/
theorem read_cases {X : Type} {x : Except Abort X} {f : (Call → Handler Unit) → X → Handler Unit}
    (h : ∀ call, handleRequestOn parse undef call req = attempt x >>= f call) :
    (∃ a, x = .ok a) ∨ Refuses parse undef req := by
  cases x with
  | ok a => exact .inl ⟨a, rfl⟩
  | error e => exact .inr (.inr ⟨e, h⟩)

theorem readCart_cases {js : Json} (hparse : parse req.body = some js) (hvalid : paramsValid js = true)
    {f : (Call → Handler Unit) → SizeT × SizeT × SessionId → Handler Unit}
    (h : ∀ call, handleRequestOn parse undef call req = attempt (readCart undef js) >>= f call) :
    (∃ i c s, HasBody parse req (CartBody · i c s)) ∨ Refuses parse undef req := by
  rcases read_cases h with ⟨⟨i, c, s⟩, hread⟩ | hrefuses
  · have body := (readCart_body hvalid).mp hread
    obtain ⟨members, rfl⟩ := object_of_unsigned body.id
    exact .inl ⟨i, c, s, members, hparse, body⟩
  · exact .inr hrefuses

theorem readOrder_cases {js : Json} (hparse : parse req.body = some js)
    (hvalid : paramsValid js = true) {f : (Call → Handler Unit) → SizeT × SessionId → Handler Unit}
    (h : ∀ call, handleRequestOn parse undef call req = attempt (readOrder undef js) >>= f call) :
    (∃ o s, HasBody parse req (OrderBody · o s)) ∨ Refuses parse undef req := by
  rcases read_cases h with ⟨⟨o, s⟩, hread⟩ | hrefuses
  · have body := (readOrder_body hvalid).mp hread
    obtain ⟨members, rfl⟩ := object_of_unsigned body.sessionId
    exact .inl ⟨o, s, members, hparse, body⟩
  · exact .inr hrefuses

/-- What becomes of a body that passes its checks: the method and the target say which operation it is
for, if any. -/
theorem checked_cases {js : Json} (hget : req.method ≠ .get) (hparse : parse req.body = some js)
    (hvalid : paramsValid js = true) : (∃ c, Routes parse req c) ∨ Refuses parse undef req := by
  have checked : ∀ call, handleRequestOn parse undef call req = _ :=
    fun _ => handle_checked hget hparse hvalid
  by_cases hpost : req.method = .post
  · simp only [if_pos hpost] at checked
    by_cases hbuy : req.target = "/buy"
    · simp only [if_pos hbuy] at checked
      rcases readCart_cases hparse hvalid checked with ⟨i, c, s, body⟩ | hrefuses
      · exact .inl ⟨.buy i c s, hpost, hbuy, body⟩
      · exact .inr hrefuses
    · simp only [if_neg hbuy] at checked
      by_cases horder : req.target = "/make_order"
      · simp only [if_pos horder] at checked
        rcases readOrder_cases hparse hvalid checked with ⟨o, s, body⟩ | hrefuses
        · exact .inl ⟨.makeOrder o s, hpost, horder, body⟩
        · exact .inr hrefuses
      · simp only [if_neg horder] at checked
        exact .inr (.inl ⟨_, checked⟩)
  · simp only [if_neg hpost] at checked
    by_cases hdelete : req.method = .delete_
    · simp only [if_pos hdelete] at checked
      by_cases hremove : req.target = "/remove"
      · simp only [if_pos hremove] at checked
        rcases readCart_cases hparse hvalid checked with ⟨i, c, s, body⟩ | hrefuses
        · exact .inl ⟨.remove i c s, hdelete, hremove, body⟩
        · exact .inr hrefuses
      · simp only [if_neg hremove] at checked
        exact .inr (.inl ⟨_, checked⟩)
    · simp only [if_neg hdelete] at checked
      exact .inr (.inl ⟨_, checked⟩)

/-- **The handler does one thing**: it makes the call its request routes to, or gives one response, or
throws. -/
theorem handler_cases (parse : String → Option Json) (undef : ℚ → SizeT) (req : Request) :
    (∃ c, Routes parse req c) ∨ Refuses parse undef req := by
  by_cases hget : req.method = .get
  · by_cases htarget : req.target = "/get_description"
    · exact .inl ⟨.getAllItemDescription, hget, htarget⟩
    · have missing : ∀ call, handleRequestOn parse undef call req = notFound req.target := by
        intro call
        rw [handleRequestOn, if_pos hget, if_neg htarget]
      exact .inr (.inl ⟨_, missing⟩)
  cases hparse : parse req.body with
  | none =>
    refine .inr (.inr ⟨.parseError, fun call => ?_⟩)
    rw [handleRequestOn, if_neg hget, parseBody, hparse]
    rfl
  | some js =>
    cases hvalid : paramsValid js with
    | false =>
      have invalid : ∀ call, handleRequestOn parse undef call req =
          invalidParams "invalid body parameters" := by
        intro call
        rw [handleRequestOn, if_neg hget, parseBody_ok.mpr hparse, attempt_ok, checkParams_eq,
          attempt_ok, hvalid]
        rfl
      exact .inr (.inl ⟨_, invalid⟩)
    | true => exact checked_cases hget hparse hvalid

/-! ## The calls it makes -/

/-- The effects a handler has had when it has returned or thrown. -/
def effectsOf : EStateM.Result Abort Front Unit → List Effect
  | .ok _ front => front.effects
  | .error _ front => front.effects

/-- What the handler does with a request: its response, or the call it makes. -/
def effectsOn (parse : String → Option Json) (undef : ℚ → SizeT) (t : Table) (req : Request) :
    List Effect :=
  effectsOf (handleRequestOn parse undef emit req (Front.of t))

/-- The handler makes the call its request routes to, and no other. -/
theorem mem_effectsOn {t : Table} {c : Call} :
    .handOver c ∈ effectsOn parse undef t req ↔ Routes parse req c := by
  constructor
  · intro hmem
    rcases handler_cases parse undef req with ⟨c', hroutes⟩ | ⟨r, hrefuses⟩ | ⟨e, hrefuses⟩
    · rw [effectsOn, handler_of_routes hroutes] at hmem
      have hmem' : Effect.handOver c ∈ [.handOver c'] := hmem
      obtain rfl := Effect.handOver.inj (List.mem_singleton.mp hmem')
      exact hroutes
    · rw [effectsOn, hrefuses emit] at hmem
      have hmem' : Effect.handOver c ∈ [.respond r] := hmem
      cases List.mem_singleton.mp hmem'
    · rw [effectsOn, hrefuses emit] at hmem
      cases hmem
  · intro hroutes
    rw [effectsOn, handler_of_routes hroutes]
    exact List.mem_singleton.mpr rfl

/-- A handler that returns has had one effect, and one that throws has had none. -/
theorem effects_emit {t : Table} {front : Front}
    (h : handleRequestOn parse undef emit req (Front.of t) = .ok () front) :
    ∃ e, front.effects = [e] := by
  rcases handler_cases parse undef req with ⟨c, hroutes⟩ | ⟨r, hrefuses⟩ | ⟨e, hrefuses⟩
  · rw [handler_of_routes hroutes] at h
    cases h
    exact ⟨.handOver c, rfl⟩
  · rw [hrefuses emit] at h
    cases h
    exact ⟨.respond r, rfl⟩
  · rw [hrefuses emit] at h
    cases h

end Handle

/-- **Routing and validation are exact**: which requests make the handler call `Buy`, `Remove` and
`MakeOrder`, and with which arguments; it makes no more than one call. -/
theorem routing_exact (parse : String → Option Json) (undef : ℚ → SizeT) (t : Table)
    (req : Request) :
    (∀ i c s, .handOver (.buy i c s) ∈ effectsOn parse undef t req ↔
      req.method = .post ∧ req.target = "/buy" ∧ HasBody parse req (CartBody · i c s)) ∧
    (∀ i c s, .handOver (.remove i c s) ∈ effectsOn parse undef t req ↔
      req.method = .delete_ ∧ req.target = "/remove" ∧ HasBody parse req (CartBody · i c s)) ∧
    (∀ o s, .handOver (.makeOrder o s) ∈ effectsOn parse undef t req ↔
      req.method = .post ∧ req.target = "/make_order" ∧ HasBody parse req (OrderBody · o s)) ∧
    (effectsOn parse undef t req).length ≤ 1 := by
  refine ⟨fun _ _ _ => mem_effectsOn, fun _ _ _ => mem_effectsOn, fun _ _ => mem_effectsOn, ?_⟩
  rcases handler_cases parse undef req with ⟨c, hroutes⟩ | ⟨r, hrefuses⟩ | ⟨e, hrefuses⟩
  · rw [effectsOn, handler_of_routes hroutes]
    exact Nat.le_refl 1
  · rw [effectsOn, hrefuses emit]
    exact Nat.le_refl 1
  · rw [effectsOn, hrefuses emit]
    exact Nat.zero_le 1

/-! ## A request -/

/-- `nlohmann::json::parse` of texts without a floating point number. -/
abbrev parseIntegers : String → Option Json := Json.parse fun _ => none

/-- The first element of `tests/test_buy.json`, as its client sends it. -/
def burgerRequest : Request where
  method := .post
  target := "/buy"
  body := "\x7b\"id\":1,\"count\":1,\"sessionId\":1\x7d"

theorem burger_routes : Routes parseIntegers burgerRequest (.buy 1 1 1) := by
  obtain ⟨js, hjs⟩ := Option.isSome_iff_exists.mp
    (show (parseIntegers burgerRequest.body).isSome = true by decide +kernel)
  have field (key : String) (n : SizeT)
      (h : (parseIntegers burgerRequest.body).bind (·.unsigned? key) = some n) :
      js.unsigned? key = some n := by
    rw [hjs] at h
    exact h
  have sessionId := field "sessionId" 1 (by decide +kernel)
  obtain ⟨members, rfl⟩ := object_of_unsigned sessionId
  refine ⟨rfl, rfl, members, hjs, field "id" 1 (by decide +kernel), field "count" 1 (by decide +kernel),
    sessionId, ?_⟩
  have absent : (parseIntegers burgerRequest.body).map (fieldValid · "order_sum") = some true := by
    decide +kernel
  rw [hjs] at absent
  exact Option.some.inj absent

end TcpServer
