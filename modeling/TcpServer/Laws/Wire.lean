import TcpServer.ControllerLayer.Client
import TcpServer.DataLayer.ItemHolder
import TcpServer.Laws.NormalForm
import TcpServer.Laws.Routing

/-!
# From value to value

What a client means by a request is what the server makes of it, with the texts in between and the
parser of the program: the call is the one the client's value asks for (`client_calls`), whichever kind
of integer the value had. In the other direction, the text a client is given for the catalogue is one
the server could have been started with: it makes the same holder (`holder_of_served`).
-/

namespace TcpServer

open Lexer TcpServer.Parser Serializer

variable {strtod : Text → Option ℚ} {dumpFloat : ℚ → Text} {float : ℚ → Prop} {v : Json}
  {key : String}

/-! ## The members of a value -/

theorem parse_text (h : v.WellFormed (ReadsBack strtod dumpFloat)) (strict : Bool) :
    parse strtod strict (v.dump dumpFloat).toList = some v.canonical := by
  have none_behind : ∀ c ∈ ([] : Text), isWhitespace c = true := List.forall_mem_nil _
  have read := parse_dump_append h none_behind strict
  rwa [List.append_nil, ← String.toList_ofList (l := dump dumpFloat v)] at read

theorem readStream_dump (h : v.WellFormed (ReadsBack strtod dumpFloat)) :
    Json.readStream strtod (v.dump dumpFloat) = .ok v.canonical := by
  rw [Json.readStream, parse_text h]

theorem parse_line (h : v.WellFormed (ReadsBack strtod dumpFloat)) :
    Json.parse strtod (v.dump dumpFloat ++ "\n") = some v.canonical := by
  rw [Json.parse, Json.dump, String.toList_append, String.toList_ofList]
  exact parse_dump_append h blank_newline true

/-- A member that is a non-negative integer, signed or not. -/
def Json.natural? (j : Json) (key : String) : Option SizeT :=
  match j.find? key with
  | some (.numberUnsigned n) => some n
  | some (.numberInteger n) => if n.slt 0 then none else some n
  | _ => none

theorem unsigned?_canonical (v : Json) (key : String) : v.canonical.unsigned? key = v.natural? key := by
  rw [Json.unsigned?, Json.natural?, find?_canonical]
  cases v.find? key with
  | none => rfl
  | some w =>
    cases w with
    | numberInteger n =>
      rw [Option.map_some, Json.canonical]
      by_cases hn : n.slt 0 = true
      · simp only [if_pos hn]
      · simp only [if_neg hn]
    | _ => rfl

/-- A member that is missing or a non-negative integer passes its check. -/
theorem fieldValid_canonical (v : Json) (key : String) :
    fieldValid v.canonical key = true ↔ v.find? key = none ∨ ∃ n, v.natural? key = some n := by
  rw [fieldValid, Json.natural?, find?_canonical]
  cases v.find? key with
  | none => exact iff_of_true rfl (.inl rfl)
  | some w =>
    cases w with
    | numberInteger n =>
      rw [Option.map_some, Json.canonical]
      by_cases hn : n.slt 0 = true
      · simp only [if_pos hn]
        refine iff_of_false Bool.false_ne_true ?_
        rintro (h | ⟨m, h⟩) <;> cases h
      · simp only [if_neg hn]
        exact iff_of_true rfl (.inr ⟨n, rfl⟩)
    | _ => simp [Json.canonical, Json.isNumberUnsigned]

/-! ## From the client to the server -/

/-- The arguments of a `Buy` or a `Remove`, as a client puts them. -/
structure CartSent (v : Json) (i c : SizeT) (s : SessionId) : Prop where
  id : v.natural? "id" = some i
  count : v.natural? "count" = some c
  sessionId : v.natural? "sessionId" = some s
  orderSum : v.find? "order_sum" = none ∨ ∃ o, v.natural? "order_sum" = some o

/-- The arguments of a `MakeOrder`, as a client puts them. -/
structure OrderSent (v : Json) (o : SizeT) (s : SessionId) : Prop where
  orderSum : v.natural? "order_sum" = some o
  sessionId : v.natural? "sessionId" = some s
  id : v.find? "id" = none ∨ ∃ i, v.natural? "id" = some i
  count : v.find? "count" = none ∨ ∃ c, v.natural? "count" = some c

/-- The value of a request that the client sends. -/
def Client.Posts (client : Client) (type : String) (idx : ℕ) (v : Json) : Prop :=
  type = "buy" ∧ client.buyJson.element idx = .ok v ∨
    type = "make_order" ∧ client.makeOrderJson.element idx = .ok v

/-- The call a run of the client asks for. -/
def Client.Asks (client : Client) (target type : String) (idx : ℕ) : Call → Prop
  | .getAllItemDescription =>
    target = "/get_description" ∧ type ≠ "buy" ∧ type ≠ "make_order" ∧ type ≠ "remove"
  | .buy i c s => target = "/buy" ∧ ∃ v, client.Posts type idx v ∧ CartSent v i c s
  | .remove i c s =>
    target = "/remove" ∧ type = "remove" ∧
      ∃ v, client.removeJson.element idx = .ok v ∧ CartSent v i c s
  | .makeOrder o s => target = "/make_order" ∧ ∃ v, client.Posts type idx v ∧ OrderSent v o s

theorem cartBody_canonical {i c : SizeT} {s : SessionId} :
    CartBody v.canonical i c s ↔ CartSent v i c s := by
  constructor
  · rintro ⟨id, count, sessionId, orderSum⟩
    rw [unsigned?_canonical] at id count sessionId
    exact ⟨id, count, sessionId, (fieldValid_canonical v _).mp orderSum⟩
  · rintro ⟨id, count, sessionId, orderSum⟩
    rw [← unsigned?_canonical] at id count sessionId
    exact ⟨id, count, sessionId, (fieldValid_canonical v _).mpr orderSum⟩

theorem orderBody_canonical {o : SizeT} {s : SessionId} :
    OrderBody v.canonical o s ↔ OrderSent v o s := by
  constructor
  · rintro ⟨orderSum, sessionId, id, count⟩
    rw [unsigned?_canonical] at orderSum sessionId
    exact ⟨orderSum, sessionId, (fieldValid_canonical v _).mp id, (fieldValid_canonical v _).mp count⟩
  · rintro ⟨orderSum, sessionId, id, count⟩
    rw [← unsigned?_canonical] at orderSum sessionId
    exact ⟨orderSum, sessionId, (fieldValid_canonical v _).mpr id,
      (fieldValid_canonical v _).mpr count⟩

/-- The server finds in a body what the client put there. -/
theorem hasBody_sent {req : Request} {p : Json → Prop}
    (h : v.WellFormed (ReadsBack strtod dumpFloat)) (hbody : req.body = v.dump dumpFloat ++ "\n")
    (hp : ∀ j, p j → ∃ members, j = .object members) :
    HasBody (Json.parse strtod) req p ↔ p v.canonical := by
  rw [HasBody, hbody, parse_line h]
  constructor
  · rintro ⟨members, heq, hmembers⟩
    rwa [Option.some.inj heq]
  · intro hv
    obtain ⟨members, heq⟩ := hp _ hv
    exact ⟨members, congrArg some heq, heq ▸ hv⟩

theorem hasBody_cart {req : Request} {i c : SizeT} {s : SessionId}
    (h : v.WellFormed (ReadsBack strtod dumpFloat)) (hbody : req.body = v.dump dumpFloat ++ "\n") :
    HasBody (Json.parse strtod) req (CartBody · i c s) ↔ CartSent v i c s :=
  (hasBody_sent h hbody fun _ body => object_of_unsigned body.id).trans cartBody_canonical

theorem hasBody_order {req : Request} {o : SizeT} {s : SessionId}
    (h : v.WellFormed (ReadsBack strtod dumpFloat)) (hbody : req.body = v.dump dumpFloat ++ "\n") :
    HasBody (Json.parse strtod) req (OrderBody · o s) ↔ OrderSent v o s :=
  (hasBody_sent h hbody fun _ body => object_of_unsigned body.orderSum).trans orderBody_canonical

theorem wellFormed_element {j : Json} {idx : ℕ} (h : j.WellFormed float) (hv : j.element idx = .ok v) :
    v.WellFormed float := by
  cases h with
  | null => exact Except.ok.inj hv ▸ .null
  | @array elements hall =>
    obtain rfl := Except.ok.inj hv
    rw [List.getD_eq_getElem?_getD]
    cases helement : elements[idx]? with
    | none => exact .null
    | some w => exact hall w (List.mem_of_getElem? helement)
  | _ => cases hv

theorem wellFormed_of_readStream {s : String} (h : Json.readStream strtod s = .ok v) :
    v.WellFormed (Parsed strtod) := by
  rw [Json.readStream] at h
  split at h
  next v' hp => exact Except.ok.inj h ▸ wellFormed_of_parse hp
  next => cases h

theorem body_eq_ok {json : Json} {idx : ℕ} {body : String} :
    Client.body dumpFloat json idx = .ok body ↔
      ∃ v, json.element idx = .ok v ∧ v.dump dumpFloat ++ "\n" = body := by
  rw [Client.body, bind_eq_ok]
  exact exists_congr fun v => and_congr_right fun _ => ⟨Except.ok.inj, congrArg Except.ok⟩

/-- The requests a run sends, by its type. -/
theorem Client.run_cases {client : Client} {target type : String} {idx : ℕ} {req : Request}
    (h : client.run dumpFloat target type idx = .ok req) :
    (∃ v, client.Posts type idx v ∧ req = ⟨.post, target, v.dump dumpFloat ++ "\n"⟩) ∨
      (type = "remove" ∧ ∃ v, client.removeJson.element idx = .ok v ∧
        req = ⟨.delete_, target, v.dump dumpFloat ++ "\n"⟩) ∨
      (type ≠ "buy" ∧ type ≠ "make_order" ∧ type ≠ "remove" ∧ req = ⟨.get, target, ""⟩) := by
  rw [Client.run] at h
  split at h
  next hbuy =>
    obtain ⟨body, hbody, heq⟩ := bind_eq_ok.mp h
    obtain ⟨v, hv, rfl⟩ := body_eq_ok.mp hbody
    exact .inl ⟨v, .inl ⟨hbuy, hv⟩, (Except.ok.inj heq).symm⟩
  next hbuy =>
    split at h
    next horder =>
      obtain ⟨body, hbody, heq⟩ := bind_eq_ok.mp h
      obtain ⟨v, hv, rfl⟩ := body_eq_ok.mp hbody
      exact .inl ⟨v, .inr ⟨horder, hv⟩, (Except.ok.inj heq).symm⟩
    next horder =>
      split at h
      next hremove =>
        obtain ⟨body, hbody, heq⟩ := bind_eq_ok.mp h
        obtain ⟨v, hv, rfl⟩ := body_eq_ok.mp hbody
        exact .inr (.inl ⟨hremove, v, hv, (Except.ok.inj heq).symm⟩)
      next hremove => exact .inr (.inr ⟨hbuy, horder, hremove, (Except.ok.inj h).symm⟩)

theorem Client.Posts.unique {client : Client} {type : String} {idx : ℕ} {v w : Json}
    (hv : client.Posts type idx v) (hw : client.Posts type idx w) : v = w := by
  rcases hv with ⟨rfl, hv⟩ | ⟨rfl, hv⟩ <;> rcases hw with ⟨htype, hw⟩ | ⟨htype, hw⟩
  · exact Except.ok.inj (hv.symm.trans hw)
  · exact absurd htype (by decide)
  · exact absurd htype (by decide)
  · exact Except.ok.inj (hv.symm.trans hw)

theorem Client.Posts.type_ne {client : Client} {type : String} {idx : ℕ} {v : Json}
    (hv : client.Posts type idx v) : type ≠ "remove" := by
  rcases hv with ⟨rfl, -⟩ | ⟨rfl, -⟩ <;> decide

section Asks

variable {client : Client} {target type : String} {idx : ℕ} {req : Request} {c : Call}

theorem routes_post (wf : v.WellFormed (ReadsBack strtod dumpFloat)) (posts : client.Posts type idx v) :
    Routes (Json.parse strtod) ⟨.post, target, v.dump dumpFloat ++ "\n"⟩ c ↔
      client.Asks target type idx c := by
  cases c with
  | getAllItemDescription =>
    refine iff_of_false (fun h => Verb.noConfusion h.1) ?_
    rintro ⟨-, hbuy, horder, -⟩
    exact posts.elim (fun h => hbuy h.1) fun h => horder h.1
  | buy i n s =>
    rw [Routes, hasBody_cart wf rfl, Client.Asks]
    constructor
    · rintro ⟨-, htarget, sent⟩
      exact ⟨htarget, v, posts, sent⟩
    · rintro ⟨htarget, w, posts', sent⟩
      exact ⟨rfl, htarget, posts'.unique posts ▸ sent⟩
  | remove i n s =>
    refine iff_of_false (fun h => Verb.noConfusion h.1) ?_
    rintro ⟨-, htype, -⟩
    exact posts.type_ne htype
  | makeOrder o s =>
    rw [Routes, hasBody_order wf rfl, Client.Asks]
    constructor
    · rintro ⟨-, htarget, sent⟩
      exact ⟨htarget, v, posts, sent⟩
    · rintro ⟨htarget, w, posts', sent⟩
      exact ⟨rfl, htarget, posts'.unique posts ▸ sent⟩

theorem routes_delete (wf : v.WellFormed (ReadsBack strtod dumpFloat))
    (hv : client.removeJson.element idx = .ok v) :
    Routes (Json.parse strtod) ⟨.delete_, target, v.dump dumpFloat ++ "\n"⟩ c ↔
      client.Asks target "remove" idx c := by
  cases c with
  | getAllItemDescription =>
    exact iff_of_false (fun h => Verb.noConfusion h.1) fun h => h.2.2.2 rfl
  | buy i n s =>
    refine iff_of_false (fun h => Verb.noConfusion h.1) ?_
    rintro ⟨-, w, posts, -⟩
    exact posts.type_ne rfl
  | remove i n s =>
    rw [Routes, hasBody_cart wf rfl, Client.Asks]
    constructor
    · rintro ⟨-, htarget, sent⟩
      exact ⟨htarget, rfl, v, hv, sent⟩
    · rintro ⟨htarget, -, w, hw, sent⟩
      exact ⟨rfl, htarget, Except.ok.inj (hw.symm.trans hv) ▸ sent⟩
  | makeOrder o s =>
    refine iff_of_false (fun h => Verb.noConfusion h.1) ?_
    rintro ⟨-, w, posts, -⟩
    exact posts.type_ne rfl

theorem routes_get (hbuy : type ≠ "buy") (horder : type ≠ "make_order") (hremove : type ≠ "remove") :
    Routes (Json.parse strtod) ⟨.get, target, ""⟩ c ↔ client.Asks target type idx c := by
  have no_post (v : Json) (posts : client.Posts type idx v) : False :=
    posts.elim (fun h => hbuy h.1) fun h => horder h.1
  cases c with
  | getAllItemDescription => exact ⟨fun h => ⟨h.2, hbuy, horder, hremove⟩, fun h => ⟨rfl, h.1⟩⟩
  | buy i n s =>
    exact iff_of_false (fun h => Verb.noConfusion h.1) fun ⟨_, w, posts, _⟩ => no_post w posts
  | remove i n s => exact iff_of_false (fun h => Verb.noConfusion h.1) fun h => hremove h.2.1
  | makeOrder o s =>
    exact iff_of_false (fun h => Verb.noConfusion h.1) fun ⟨_, w, posts, _⟩ => no_post w posts

end Asks

/-- **The call the server makes is the one the client's value asks for.** -/
theorem client_calls {strtod : Text → Option ℚ} {dumpFloat : ℚ → Text}
    (hfloat : ∀ q, Parsed strtod q → ReadsBack strtod dumpFloat q)
    {buyText removeText makeOrderText : String} {client : Client}
    (hclient : Client.ofTexts strtod buyText removeText makeOrderText = .ok client)
    {target type : String} {idx : ℕ} {req : Request}
    (hrun : client.run dumpFloat target type idx = .ok req) (undef : ℚ → SizeT) (t : Table)
    (c : Call) : .handOver c ∈ effectsOn (Json.parse strtod) undef t req ↔
      client.Asks target type idx c := by
  obtain ⟨buyJson, hbuy, h⟩ := bind_eq_ok.mp hclient
  obtain ⟨removeJson, hremove, h⟩ := bind_eq_ok.mp h
  obtain ⟨makeOrderJson, horder, h⟩ := bind_eq_ok.mp h
  obtain rfl := Except.ok.inj h
  have read {s : String} {j v : Json} {idx : ℕ} (hs : Json.readStream strtod s = .ok j)
      (hv : j.element idx = .ok v) : v.WellFormed (ReadsBack strtod dumpFloat) :=
    (wellFormed_element (wellFormed_of_readStream hs) hv).mono hfloat
  rw [mem_effectsOn]
  rcases Client.run_cases hrun with ⟨v, posts, rfl⟩ | ⟨rfl, v, hv, rfl⟩ | ⟨h₁, h₂, h₃, rfl⟩
  · exact routes_post (posts.elim (fun h => read hbuy h.2) fun h => read horder h.2) posts
  · exact routes_delete (read hremove hv) hv
  · exact routes_get h₁ h₂ h₃

/-- The first element of `tests/test_buy.json`. -/
def testBuy : Json :=
  .object [("count", .numberUnsigned 1), ("id", .numberUnsigned 1), ("sessionId", .numberUnsigned 1)]

theorem wellFormed_testBuy : testBuy.WellFormed float := by
  refine .object (by decide) ?_
  simp only [List.forall_mem_cons, List.not_mem_nil, false_implies, implies_true, and_true]
  exact ⟨.numberUnsigned _, .numberUnsigned _, .numberUnsigned _⟩

/-- The first run of the tests. -/
theorem client_calls_test : .handOver (.buy 1 1 1) ∈ effectsOn (Json.parse halfStrtod) (fun _ => 0)
    (Table.ofLength 2) ⟨.post, "/buy", testBuy.dump halfText ++ "\n"⟩ := by
  have wf : (Json.array [testBuy]).WellFormed (ReadsBack halfStrtod halfText) :=
    .array (List.forall_mem_singleton.mpr wellFormed_testBuy)
  have hclient : Client.ofTexts halfStrtod ((Json.array [testBuy]).dump halfText) "[]" "[]" =
      .ok ⟨.array [testBuy], .array [], .array []⟩ := by
    rw [Client.ofTexts, readStream_dump wf]
    rfl
  have hrun : Client.run halfText ⟨.array [testBuy], .array [], .array []⟩ "/buy" "buy" 0 =
      .ok ⟨.post, "/buy", testBuy.dump halfText ++ "\n"⟩ := rfl
  exact (client_calls (fun q h => readsBack_of_parsed h) hclient hrun (fun _ => 0) (Table.ofLength 2)
    (.buy 1 1 1)).mpr ⟨rfl, testBuy, .inl ⟨rfl, rfl⟩, rfl, rfl, rfl, .inl rfl⟩

/-! ## From the server to the client -/

/-- A member that is looked up and converted. -/
theorem bind_canonical {X Y : Type} {get : Json → Except Abort X} (h : ∀ j, get j.canonical = get j)
    (j : Json) (key : String) (f : X → Except Abort Y) :
    (j.canonical.constSubscript key >>= fun w => get w >>= f) =
      (j.constSubscript key >>= fun w => get w >>= f) := by
  rw [constSubscript_canonical]
  cases j.constSubscript key with
  | error e => rfl
  | ok w => exact congrArg (· >>= f) (h w)

theorem readItem_canonical (undef : ℚ → SizeT) (locale : String) (j : Json) :
    ItemHolder.readItem undef locale j.canonical = ItemHolder.readItem undef locale j := by
  simp only [ItemHolder.readItem, bind_canonical (getSizeT_canonical undef),
    bind_canonical getString_canonical]

theorem insertAll_canonical {X : Type} {read : Json → Except Abort (ItemId × X)}
    (h : ∀ j, read j.canonical = read j) (m : UnorderedMap ItemId X) (js : List Json) :
    ItemHolder.insertAll read m (js.map Json.canonical) = ItemHolder.insertAll read m js := by
  induction js generalizing m with
  | nil => rfl
  | cons j js ih =>
    rw [List.map_cons, ItemHolder.insertAll, ItemHolder.insertAll, h]
    exact congrArg _ (funext fun entry => ih _)

/-- **The catalogue a client is given is the one the server has**: it can be parsed, the items in it are
those the server charges for, and a server that is started with it is the same. -/
theorem holder_of_served {strtod : Text → Option ℚ} {dumpFloat : ℚ → Text}
    (hfloat : ∀ q, Parsed strtod q → ReadsBack strtod dumpFloat q) {undef : ℚ → SizeT}
    {locale descText amountText : String} {itemHolder : ItemHolder}
    (h : ItemHolder.ofTexts undef locale strtod dumpFloat descText amountText = .ok itemHolder) :
    ItemHolder.ofTexts undef locale strtod dumpFloat itemHolder.itemDescriptionJson amountText =
        .ok itemHolder ∧
      ∃ j, Json.parse strtod itemHolder.itemDescriptionJson = some j ∧
        ItemHolder.insertAll (ItemHolder.readItem undef locale) ∅ j.items =
          .ok itemHolder.itemsDescription := by
  obtain ⟨desc, hdesc, h⟩ := bind_eq_ok.mp h
  obtain ⟨amounts, hamounts, h⟩ := bind_eq_ok.mp h
  obtain ⟨itemsDescription, items, h⟩ := bind_eq_ok.mp h
  obtain ⟨itemsAmount, counts, h⟩ := bind_eq_ok.mp h
  obtain rfl := Except.ok.inj h
  have wf := (wellFormed_of_readStream hdesc).mono hfloat
  have same : desc.canonical.dump dumpFloat = desc.dump dumpFloat :=
    congrArg String.ofList (dump_canonical wf)
  have read : ItemHolder.insertAll (ItemHolder.readItem undef locale) ∅ desc.canonical.items =
      .ok itemsDescription := by
    rw [items_canonical, insertAll_canonical (readItem_canonical undef locale), items]
  refine ⟨?_, desc.canonical, parse_text wf true, read⟩
  rw [ItemHolder.ofTexts, readStream_dump wf, ok_bind, hamounts, ok_bind, ItemHolder.ofFiles, read,
    ok_bind, counts, ok_bind, same]
  rfl

/-- A burger with a rating. -/
def ratedBurger : Json :=
  .object [("cooking_time", .numberUnsigned 970), ("cost", .numberUnsigned 730),
    ("en_name", .string "Atlantik Burger"), ("id", .numberUnsigned 1), ("pic_url", .string "large.png"),
    ("rating", .numberFloat (1 / 2))]

theorem wellFormed_ratedBurger : ratedBurger.WellFormed (ReadsBack halfStrtod halfText) := by
  refine .object (by decide) ?_
  simp only [List.forall_mem_cons, List.not_mem_nil, false_implies, implies_true, and_true]
  exact ⟨.numberUnsigned _, .numberUnsigned _, .string _, .numberUnsigned _, .string _,
    .numberFloat readsBack_half⟩

theorem holder_of_served_burger :
    ∃ itemHolder, ItemHolder.ofTexts (fun _ => 0) "en" halfStrtod halfText
        ((Json.array [ratedBurger]).dump halfText) "[]" = .ok itemHolder ∧
      ItemHolder.ofTexts (fun _ => 0) "en" halfStrtod halfText itemHolder.itemDescriptionJson "[]" =
          .ok itemHolder ∧
        ∃ j, Json.parse halfStrtod itemHolder.itemDescriptionJson = some j ∧
          ItemHolder.insertAll (ItemHolder.readItem (fun _ => 0) "en") ∅ j.items =
            .ok itemHolder.itemsDescription := by
  have wf : (Json.array [ratedBurger]).WellFormed (ReadsBack halfStrtod halfText) :=
    .array (List.forall_mem_singleton.mpr wellFormed_ratedBurger)
  obtain ⟨itemHolder, accepted⟩ : ∃ itemHolder, ItemHolder.ofTexts (fun _ => 0) "en" halfStrtod
      halfText ((Json.array [ratedBurger]).dump halfText) "[]" = .ok itemHolder := by
    rw [ItemHolder.ofTexts, readStream_dump wf]
    exact ⟨_, rfl⟩
  exact ⟨itemHolder, accepted, holder_of_served (fun q h => readsBack_of_parsed h) accepted⟩

end TcpServer
