import TcpServer.DataLayer.ItemHolder

/-!
# The store behind `bying_removing_mutex`

The maps the tasks of `ServiceLayer/Server.cpp` work on: the stock, the catalogue and the carts. A
task reads and writes them only while it holds `bying_removing_mutex`, so its work on them is one
critical section. This module has the sections of `Buy`, `Remove` and `MakeOrder`, each cut into the
updates it is made of, in the source's order; `Server.lean` runs the updates one by one, and `exec`
below runs a section whole.

Every lookup goes through `operator[]`, which creates what it does not find. The sections carry these
creations: a guard that only reads still leaves a map behind.
-/

namespace TcpServer

/-- What the critical sections share. -/
structure Store where
  itemsAmount : UnorderedMap ItemId SizeT
  itemsDescription : UnorderedMap ItemId Item
  boughtItems : UnorderedMap SessionId (UnorderedMap ItemId SizeT)

/-- The status a callback is given. -/
inductive Status where
  | ok
  | internalError
  | paymentFailure
  deriving DecidableEq, Repr

def Status.text : Status → String
  | .ok => "ok"
  | .internalError => "internal_error"
  | .paymentFailure => "payment_failure"

/-- The arguments of a callback. -/
structure Answer where
  msg : String
  status : Status
  deriving DecidableEq, Repr

namespace Store

/-- The store of a new server: no session has a cart yet. -/
def initial (itemHolder : ItemHolder) : Store where
  itemsAmount := itemHolder.itemsAmount
  itemsDescription := itemHolder.itemsDescription
  boughtItems := ∅

/-- The quantity of an item in stock; an absent one counts as zero. -/
def stock (st : Store) (i : ItemId) : SizeT := st.itemsAmount.value i

/-- The quantity of an item in a session's cart; an absent one counts as zero. -/
def quantity (st : Store) (s : SessionId) (i : ItemId) : SizeT := (st.boughtItems.value s).value i

/-- The cost the pricing loop reads for an item. -/
def cost (st : Store) (i : ItemId) : SizeT := (st.itemsDescription.value i).cost

def cookingTime (st : Store) (i : ItemId) : SizeT := (st.itemsDescription.value i).cookingTime

/-! ## `Buy` and `Remove` -/

section Cart

variable (st : Store) (itemId itemCount : SizeT) (sessionId : SessionId)

/-- The guard of `Buy`: whether the stock suffices, and the store its lookup leaves behind. -/
def guardBuy : Bool × Store :=
  let st' := { st with itemsAmount := st.itemsAmount.touch itemId }
  (decide (itemCount ≤ st'.stock itemId), st')

/-- `items_amount[itemId] -= itemCount`. -/
def takeStock : Store := { st with itemsAmount := st.itemsAmount.modify itemId (· - itemCount) }

/-- `boughtItems[sessionId][itemId] += itemCount`. -/
def addToCart : Store :=
  { st with boughtItems := st.boughtItems.modify sessionId (·.modify itemId (· + itemCount)) }

/-- `items_amount[itemId] += itemCount`. -/
def returnStock : Store := { st with itemsAmount := st.itemsAmount.modify itemId (· + itemCount) }

/-- `boughtItems[sessionId][itemId] -= itemCount`. -/
def takeFromCart : Store :=
  { st with boughtItems := st.boughtItems.modify sessionId (·.modify itemId (· - itemCount)) }

/-- The section of `Buy`: whether it was granted, and the store after it. -/
def buy : Bool × Store :=
  let (granted, st) := st.guardBuy itemId itemCount
  if granted then (true, (st.takeStock itemId itemCount).addToCart itemId itemCount sessionId)
  else (false, st)

/-- The section of `Remove`. -/
def remove : Store := (st.returnStock itemId itemCount).takeFromCart itemId itemCount sessionId

end Cart

/-! ## `CheckOrderCost` and `MakeOrder` -/

/-- The accumulators of the pricing loop, and the catalogue its lookups leave behind. -/
structure Pricing where
  tempSum : SizeT
  totalCookingTime : SizeT
  itemsDescription : UnorderedMap ItemId Item

/-- One round of the pricing loop. `amount <= 0` on a `size_t` holds for zero only. -/
def Pricing.add (p : Pricing) (itemId amount : SizeT) : Pricing :=
  if amount ≤ 0 then p
  else
    let item := p.itemsDescription.value itemId
    { tempSum := p.tempSum + item.cost * amount
      totalCookingTime := p.totalCookingTime + amount * item.cookingTime
      itemsDescription := p.itemsDescription.touch itemId }

/-- The order of the entries of a cart does not matter to the loop. -/
theorem Pricing.add_comm (p : Pricing) (i a j b : SizeT) :
    (p.add i a).add j b = (p.add j b).add i a := by
  unfold Pricing.add
  by_cases ha : a ≤ 0 <;> by_cases hb : b ≤ 0 <;>
    simp only [ha, hb, if_true, if_false, UnorderedMap.value_touch,
      UnorderedMap.touch_comm p.itemsDescription i j, Pricing.mk.injEq, and_true]
  exact ⟨add_right_comm _ _ _, add_right_comm _ _ _⟩

/-- The loop of `CheckOrderCost` over the cart of a session. -/
def pricing (st : Store) (sessionId : SessionId) : Pricing :=
  (st.boughtItems.value sessionId).foldl Pricing.add Pricing.add_comm
    { tempSum := 0, totalCookingTime := 0, itemsDescription := st.itemsDescription }

/-- `CheckOrderCost`: whether the sum is the price of the cart, the cooking time, and the store its
lookups leave behind. -/
def checkOrderCost (st : Store) (orderSum : SizeT) (sessionId : SessionId) :
    Bool × SizeT × Store :=
  let p := st.pricing sessionId
  (decide (p.tempSum = orderSum), p.totalCookingTime,
    { st with itemsDescription := p.itemsDescription
              boughtItems := st.boughtItems.touch sessionId })

/-- `boughtItems.erase(sessionId)`. -/
def eraseCart (st : Store) (sessionId : SessionId) : Store :=
  { st with boughtItems := st.boughtItems.erase sessionId }

/-- The section of `MakeOrder`: the cooking time of an accepted order, and the store after it. -/
def makeOrder (st : Store) (orderSum : SizeT) (sessionId : SessionId) : Option SizeT × Store :=
  let (accepted, totalCookingTime, st) := st.checkOrderCost orderSum sessionId
  if accepted then (some totalCookingTime, st.eraseCart sessionId) else (none, st)

end Store

/-! ## Tasks -/

/-- A task of one of the two pools. -/
inductive Task where
  | buy (itemId itemCount : SizeT) (sessionId : SessionId)
  | remove (itemId itemCount : SizeT) (sessionId : SessionId)
  | makeOrder (orderSum : SizeT) (sessionId : SessionId)
  deriving DecidableEq, Repr

/-- The session a task is of. -/
def Task.sessionId : Task → SessionId
  | .buy _ _ s => s
  | .remove _ _ s => s
  | .makeOrder _ s => s

/-- What a task does besides changing the store: its answer, and the argument of the call of
`KitchenWorker::MakeProduct`, if it makes one. -/
structure Outcome where
  answer : Answer
  makeProduct : Option SizeT
  deriving DecidableEq, Repr

/-- Whether the callback is given the status "ok". -/
def Outcome.ok (o : Outcome) : Bool := decide (o.answer.status = .ok)

def Answer.bought : Answer := { msg := "item was bought correctly", status := .ok }

def Answer.tooMany (itemId : ItemId) : Answer :=
  { msg := "you cannot buy this many items :" ++ toText itemId, status := .internalError }

def Answer.removed : Answer := { msg := "item was removed correctly", status := .ok }

def Answer.notSufficient (orderSum : SizeT) (sessionId : SessionId) : Answer :=
  { msg := "payment provided is not sufficient " ++ toText orderSum ++ " " ++ toText sessionId
    status := .paymentFailure }

def Answer.ready (sessionId : SessionId) : Answer :=
  { msg := "order " ++ toText sessionId ++ " is ready", status := .ok }

/-- `GetAllItemDescription`: what its task answers. -/
def getAllItemDescription (itemHolder : ItemHolder) : Answer :=
  { msg := itemHolder.itemDescriptionJson, status := .ok }

/-- A task run whole on the store. -/
def Store.exec (st : Store) : Task → Store × Outcome
  | .buy itemId itemCount sessionId =>
    let (granted, st') := st.buy itemId itemCount sessionId
    (st', { answer := if granted then .bought else .tooMany itemId, makeProduct := none })
  | .remove itemId itemCount sessionId =>
    (st.remove itemId itemCount sessionId, { answer := .removed, makeProduct := none })
  | .makeOrder orderSum sessionId =>
    let (cooked, st') := st.makeOrder orderSum sessionId
    (st', { answer := if cooked.isSome then .ready sessionId else .notSufficient orderSum sessionId
            makeProduct := cooked })

/-- The store after some tasks, the newest first. -/
def Store.after (st : Store) : List Task → Store
  | [] => st
  | t :: ts => ((st.after ts).exec t).1

/-- The tasks with what they did, the newest first. -/
def Store.history (st : Store) : List Task → List (Task × Outcome)
  | [] => []
  | t :: ts => (t, ((st.after ts).exec t).2) :: st.history ts

end TcpServer
