import TcpServer.Laws.Canonical
import TcpServer.Laws.Sections

/-!
# Shown and charged prices

The constructor of the item holder keeps the description file twice: as the text `/get_description`
serves, and as the map the pricing loop charges from. The text is the whole file. The map is filled by
`insert`, which keeps the first entry of an id, and its costs are converted to `size_t`. Nothing in the
constructor looks at repeated ids, or at numbers a `size_t` cannot hold.

So what is shown is what is charged exactly when the file leaves the constructor no choice: every cost
is a natural number below 2^64, and elements filed under one id show one cost
(`shown_is_charged_iff`).
-/

namespace TcpServer

open UnorderedMap

/-! ## Reading one element -/

/-- The cost an element shows, as a number. -/
def shownCost (e : Json) : Option ℚ := (e.find? "cost").bind Json.number?

/-- The id the constructor files an element under. -/
def filedId (undef : ℚ → SizeT) (e : Json) : Option ItemId :=
  (e.find? "id").bind fun j => (j.getSizeT undef).toOption

/-- Neither depends on the kinds of the integers. -/
theorem shownCost_canonical (e : Json) : shownCost e.canonical = shownCost e := by
  rw [shownCost, shownCost, find?_canonical]
  cases e.find? "cost" with
  | none => rfl
  | some j => exact number?_canonical j

theorem filedId_canonical (undef : ℚ → SizeT) (e : Json) :
    filedId undef e.canonical = filedId undef e := by
  rw [filedId, filedId, find?_canonical]
  cases e.find? "id" with
  | none => rfl
  | some j =>
    rw [Option.map_some, Option.bind_some, Option.bind_some, getSizeT_canonical]

/-- What an element that is accepted is filed under, and the cost it is filed with. -/
theorem readItem_ok {undef : ℚ → SizeT} {locale : String} {e : Json} {id : ItemId} {item : Item}
    (h : ItemHolder.readItem undef locale e = .ok (id, item)) :
    filedId undef e = some id ∧
      ∃ j, e.find? "cost" = some j ∧ j.getSizeT undef = .ok item.cost := by
  obtain ⟨jid, hjid, h⟩ := bind_eq_ok.mp h
  obtain ⟨id', hid, h⟩ := bind_eq_ok.mp h
  obtain ⟨jcost, hjcost, h⟩ := bind_eq_ok.mp h
  obtain ⟨cost, hcost, h⟩ := bind_eq_ok.mp h
  obtain ⟨_, _, h⟩ := bind_eq_ok.mp h
  obtain ⟨_, _, h⟩ := bind_eq_ok.mp h
  obtain ⟨_, _, h⟩ := bind_eq_ok.mp h
  obtain ⟨_, _, h⟩ := bind_eq_ok.mp h
  obtain ⟨_, _, h⟩ := bind_eq_ok.mp h
  obtain ⟨_, _, h⟩ := bind_eq_ok.mp h
  obtain ⟨rfl, rfl⟩ := Prod.mk.inj (Except.ok.inj h)
  refine ⟨?_, jcost, Json.constSubscript_eq_ok.mp hjcost, hcost⟩
  rw [filedId, Json.constSubscript_eq_ok.mp hjid, Option.bind_some, hid]
  rfl

/-! ## Filling the map -/

section InsertAll

variable {ν : Type} {read : Json → Except Abort (ItemId × ν)}

theorem insertAll_cons {m m' : UnorderedMap ItemId ν} {e : Json} {is : List Json}
    (h : ItemHolder.insertAll read m (e :: is) = .ok m') :
    ∃ entry, read e = .ok entry ∧
      ItemHolder.insertAll read (m.insertNew entry.1 entry.2) is = .ok m' :=
  bind_eq_ok.mp h

/-- What the map has stays, whatever is inserted. -/
theorem lookup_insertAll_mono {is : List Json} {m m' : UnorderedMap ItemId ν} {k : ItemId} {v : ν}
    (h : ItemHolder.insertAll read m is = .ok m') (hv : m.lookup k = some v) :
    m'.lookup k = some v := by
  induction is generalizing m with
  | nil =>
    obtain rfl := Except.ok.inj h
    exact hv
  | cons e is ih =>
    obtain ⟨entry, _, hrest⟩ := insertAll_cons h
    apply ih hrest
    rw [lookup_insertNew, hv, Option.some_or]

/-- Every element of the file is accepted, and what is found under its id was there before or is the
entry of an element of the same id. -/
theorem lookup_insertAll_of_mem {is : List Json} {m m' : UnorderedMap ItemId ν}
    (h : ItemHolder.insertAll read m is = .ok m') {e : Json} (he : e ∈ is) :
    ∃ k v v', read e = .ok (k, v) ∧ m'.lookup k = some v' ∧
      (m.lookup k = some v' ∨ ∃ f ∈ is, read f = .ok (k, v')) := by
  induction is generalizing m with
  | nil => cases he
  | cons f is ih =>
    obtain ⟨⟨k₀, v₀⟩, hread, hrest⟩ := insertAll_cons h
    rcases List.mem_cons.mp he with rfl | he
    · -- the element's own insertion decides: the old entry, or its own
      cases hm : m.lookup k₀ with
      | some v' =>
        have kept : (m.insertNew k₀ v₀).lookup k₀ = some v' := by
          rw [lookup_insertNew, hm, Option.some_or]
        exact ⟨k₀, v₀, v', hread, lookup_insertAll_mono hrest kept, .inl hm⟩
      | none =>
        have own : (m.insertNew k₀ v₀).lookup k₀ = some v₀ := by
          rw [lookup_insertNew, hm, Option.none_or, if_pos rfl]
        exact ⟨k₀, v₀, v₀, hread, lookup_insertAll_mono hrest own,
          .inr ⟨e, List.mem_cons_self, hread⟩⟩
    · obtain ⟨k, v, v', hk, hv', hfrom⟩ := ih hrest he
      refine ⟨k, v, v', hk, hv', ?_⟩
      rcases hfrom with hold | ⟨g, hg, hread'⟩
      · rw [lookup_insertNew] at hold
        rcases Option.or_eq_some_iff.mp hold with hm | ⟨_, hnew⟩
        · exact .inl hm
        · -- the entry under `k` is the one `f` has just made
          split at hnew
          next hkk =>
            subst hkk
            obtain rfl := Option.some.inj hnew
            exact .inr ⟨f, List.mem_cons_self, hread⟩
          next => cases hnew
      · exact .inr ⟨g, List.mem_cons_of_mem f hg, hread'⟩

end InsertAll

/-! ## The two copies -/

/-- What clients are shown is what they are charged: in every state of the server, the cost the pricing
loop reads for the id of an element of the served array is the cost the element shows. -/
def ShownIsCharged (undef : ℚ → SizeT) (parse : String → Option Json) (itemHolder : ItemHolder) :
    Prop :=
  ∀ shown, parse (getAllItemDescription itemHolder).msg = some (.array shown) →
    ∀ e ∈ shown, ∀ id, filedId undef e = some id → ∀ ts : List Task,
      shownCost e =
        some ((((Store.initial itemHolder).after ts).cost id).toNat : ℚ)

/-- The costs of a file are `size_t`s, one for each id. -/
structure PricesSettled (undef : ℚ → SizeT) (elements : List Json) : Prop where
  natural : ∀ e ∈ elements, ∃ n : ℕ, n < 2 ^ 64 ∧ shownCost e = some (n : ℚ)
  single : ∀ e ∈ elements, ∀ f ∈ elements,
    filedId undef e = filedId undef f → shownCost e = shownCost f

section TwoCopies

variable {undef : ℚ → SizeT} {locale : String} {dump : Json → String} {elements : List Json}
  {amounts : Json} {itemHolder : ItemHolder}

/-- What the constructor leaves, if it returns. -/
theorem ofFiles_ok {desc : Json}
    (h : ItemHolder.ofFiles undef locale dump desc amounts = .ok itemHolder) :
    ItemHolder.insertAll (ItemHolder.readItem undef locale) ∅ desc.items =
        .ok itemHolder.itemsDescription ∧
      itemHolder.itemDescriptionJson = dump desc := by
  obtain ⟨description, hd, h⟩ := bind_eq_ok.mp h
  obtain ⟨_, _, h⟩ := bind_eq_ok.mp h
  obtain rfl := Except.ok.inj h
  exact ⟨hd, rfl⟩

/-- The entry an accepted element is charged by is the entry of an element with its id. -/
theorem charged_of_mem
    (h : ItemHolder.ofFiles undef locale dump (.array elements) amounts = .ok itemHolder)
    {e : Json} (he : e ∈ elements) :
    ∃ id, filedId undef e = some id ∧ ∃ f ∈ elements, filedId undef f = some id ∧
      ∃ j, f.find? "cost" = some j ∧ j.getSizeT undef = .ok ((Store.initial itemHolder).cost id) := by
  obtain ⟨id, item, item', hread, hlookup, hfrom⟩ :=
    lookup_insertAll_of_mem (ofFiles_ok h).1 (show e ∈ (Json.array elements).items from he)
  obtain ⟨f, hf, hread'⟩ := hfrom.resolve_left (by
    rw [show (∅ : UnorderedMap ItemId Item).lookup id = none from Finmap.lookup_empty id]
    exact fun h => nomatch h)
  obtain ⟨hfid, j, hj, hcost⟩ := readItem_ok hread'
  have charged : (Store.initial itemHolder).cost id = item'.cost :=
    congrArg Item.cost (value_of_lookup hlookup)
  rw [← charged] at hcost
  exact ⟨id, (readItem_ok hread).1, f, hf, hfid, j, hj, hcost⟩

/-- An array that is read back shows the elements it was made of. -/
theorem shown_of_kept {parse : String → Option Json} {text : String}
    (kept : (parse text).map Json.canonical = some (Json.array elements).canonical) :
    ∃ shown, parse text = some (.array shown) ∧
      shown.map Json.canonical = elements.map Json.canonical := by
  obtain ⟨v, hv, hcanonical⟩ := Option.map_eq_some_iff.mp kept
  rw [Json.canonical, Json.canonicalElements_eq] at hcanonical
  cases v with
  | array shown =>
    rw [Json.canonical, Json.canonicalElements_eq] at hcanonical
    exact ⟨shown, hv, Json.array.inj hcanonical⟩
  | numberInteger n =>
    rw [Json.canonical] at hcanonical
    split at hcanonical <;> cases hcanonical
  | object members =>
    rw [Json.canonical] at hcanonical
    cases hcanonical
  | _ => cases hcanonical

/-- Elements that are the same but for the kinds of their integers show the same. -/
theorem same_of_canonical (undef : ℚ → SizeT) {es fs : List Json}
    (h : es.map Json.canonical = fs.map Json.canonical) {e : Json} (he : e ∈ es) :
    ∃ f ∈ fs, filedId undef f = filedId undef e ∧ shownCost f = shownCost e := by
  have there : e.canonical ∈ fs.map Json.canonical := h ▸ List.mem_map_of_mem he
  obtain ⟨f, hf, hcanonical⟩ := List.mem_map.mp there
  refine ⟨f, hf, ?_, ?_⟩
  · rw [← filedId_canonical undef f, hcanonical, filedId_canonical]
  · rw [← shownCost_canonical f, hcanonical, shownCost_canonical]

/-- **Shown is charged, exactly when the file settles its prices.** The dump is only assumed to be read
back as the array it was made of, up to the kinds of its integers. -/
theorem shown_is_charged_iff {parse : String → Option Json}
    (accepted : ItemHolder.ofFiles undef locale dump (.array elements) amounts = .ok itemHolder)
    (kept : (parse (dump (.array elements))).map Json.canonical =
      some (Json.array elements).canonical) :
    ShownIsCharged undef parse itemHolder ↔ PricesSettled undef elements := by
  obtain ⟨shown, served, same⟩ := shown_of_kept kept
  rw [← (ofFiles_ok accepted).2] at served
  constructor
  · intro h
    have charged : ∀ e ∈ elements, ∀ id, filedId undef e = some id → ∀ ts : List Task,
        shownCost e = some ((((Store.initial itemHolder).after ts).cost id).toNat : ℚ) := by
      intro e he id hid ts
      obtain ⟨f, hf, hfid, hfcost⟩ := same_of_canonical undef same.symm he
      exact hfcost.symm.trans (h shown served f hf id (hfid.trans hid) ts)
    constructor
    · intro e he
      obtain ⟨id, hid, _⟩ := charged_of_mem accepted he
      exact ⟨_, BitVec.isLt _, charged e he id hid []⟩
    · intro e he f hf hef
      obtain ⟨id, hid, _⟩ := charged_of_mem accepted he
      rw [charged e he id hid [], charged f hf id (hef ▸ hid) []]
  · rintro ⟨natural, single⟩ shown' hshown e' he' id hid' ts
    obtain rfl : shown = shown' :=
      Json.array.inj (Option.some.inj (served.symm.trans hshown))
    obtain ⟨e, he, hefid, hecost⟩ := same_of_canonical undef same he'
    have hid := hefid.trans hid'
    -- the charge is the conversion of the cost of some element with this id, which shows the same
    obtain ⟨id', hid', f, hf, hfid, j, hj, hcost⟩ := charged_of_mem accepted he
    obtain rfl := Option.some.inj (hid'.symm.trans hid)
    obtain ⟨n, hn, hshow⟩ := natural f hf
    have number : j.number? = some (n : ℚ) := by rwa [shownCost, hj, Option.bind_some] at hshow
    have cost : (Store.initial itemHolder).cost id' = (n : SizeT) :=
      Except.ok.inj (hcost.symm.trans (Json.getSizeT_of_number number hn))
    rw [← hecost, single e he f hf (hid.trans hfid.symm), hshow, Store.cost_after, cost,
      BitVec.natCast_eq_ofNat, BitVec.toNat_ofNat, Nat.mod_eq_of_lt hn]

end TwoCopies

/-- An element with the id 1 that shows a cost. -/
def burgerAt (cost : SizeT) : Json :=
  .object [("cooking_time", .numberUnsigned 970), ("cost", .numberUnsigned cost),
    ("en_name", .string "Atlantik Burger"), ("id", .numberUnsigned 1),
    ("pic_url", .string "large.png")]

/-- Its dump, from the dump of its cost. -/
def burgerText (cost : String) : String :=
  "\x7b\"cooking_time\":970,\"cost\":" ++ cost ++
    ",\"en_name\":\"Atlantik Burger\",\"id\":1,\"pic_url\":\"large.png\"\x7d"

/-- One burger at one price. -/
theorem shown_is_charged_burger :
    ∃ itemHolder, ItemHolder.ofFiles (fun _ => 0) "en" (fun _ => "[" ++ burgerText "730" ++ "]")
        (.array [burgerAt 730]) (.array []) = .ok itemHolder ∧
      ShownIsCharged (fun _ => 0) (fun _ => some (.array [burgerAt 730])) itemHolder := by
  obtain ⟨itemHolder, accepted⟩ : ∃ itemHolder, ItemHolder.ofFiles (fun _ => 0) "en"
      (fun _ => "[" ++ burgerText "730" ++ "]") (.array [burgerAt 730]) (.array []) =
        .ok itemHolder := ⟨_, rfl⟩
  refine ⟨itemHolder, accepted, (shown_is_charged_iff accepted rfl).mpr ⟨?_, ?_⟩⟩
  · intro e he
    obtain rfl := List.mem_singleton.mp he
    exact ⟨730, by decide, rfl⟩
  · intro e he f hf _
    rw [List.mem_singleton.mp he, List.mem_singleton.mp hf]

/-- The id 1 at two prices: the second is shown and the first is charged. -/
theorem second_price_not_charged :
    ¬ ∀ (undef : ℚ → SizeT) (locale : String) (dump : Json → String)
      (parse : String → Option Json) (elements : List Json) (amounts : Json)
      (itemHolder : ItemHolder),
      ItemHolder.ofFiles undef locale dump (.array elements) amounts = .ok itemHolder →
        parse (dump (.array elements)) = some (.array elements) →
          ShownIsCharged undef parse itemHolder := by
  intro h
  have charged := h (fun _ => 0) "en"
    (fun _ => "[" ++ burgerText "730" ++ "," ++ burgerText "250" ++ "]")
    (fun _ => some (.array [burgerAt 730, burgerAt 250])) [burgerAt 730, burgerAt 250] (.array []) _
    rfl rfl _ rfl
  have first := charged (burgerAt 730) List.mem_cons_self 1 rfl []
  have second := charged (burgerAt 250) (List.mem_cons_of_mem _ List.mem_cons_self) 1 rfl []
  rw [← second] at first
  have same : (730 : ℚ) = 250 := Option.some.inj first
  norm_num at same

end TcpServer
