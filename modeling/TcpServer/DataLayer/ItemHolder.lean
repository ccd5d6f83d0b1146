import TcpServer.Base.UnorderedMap
import TcpServer.DataLayer.Parser
import TcpServer.DataLayer.Serializer

/-!
# The item holder

`DataLayer/ItemHolder.h` and `ItemHolder.cpp`: the catalogue and the initial stock, read once from two
JSON files. The constructor keeps the catalogue twice. `itemsDescription` is the map the server
charges from, filled by `insert` (an id that is already there keeps its first entry) with every number
converted to `size_t`; `itemDescriptionJson` is the text clients are shown, the dump of the whole file.

`ofFiles` takes the two parsed values, with `dump` as a parameter; `ofTexts` takes the texts of the
files. Opening them is not modelled.
-/

namespace TcpServer

/-- `struct Item`. -/
structure Item where
  cost : SizeT
  cookingTime : SizeT
  name : String
  picUrl : String
  deriving DecidableEq, Repr

/-- `Item()`. -/
instance : Inhabited Item := ⟨{ cost := 0, cookingTime := 0, name := "", picUrl := "" }⟩

structure ItemHolder where
  itemsDescription : UnorderedMap ItemId Item
  itemsAmount : UnorderedMap ItemId SizeT
  itemDescriptionJson : String

namespace ItemHolder

variable (undef : ℚ → SizeT) (locale : String)

/-- The entry the constructor makes of one element of the description file. -/
def readItem (i : Json) : Except Abort (ItemId × Item) := do
  let id ← (← i.constSubscript "id").getSizeT undef
  let cost ← (← i.constSubscript "cost").getSizeT undef
  let cookingTime ← (← i.constSubscript "cooking_time").getSizeT undef
  let name ← (← i.constSubscript (locale ++ "_name")).getString
  let picUrl ← (← i.constSubscript "pic_url").getString
  return (id, { cost, cookingTime, name, picUrl })

/-- The entry the constructor makes of one element of the amounts file. -/
def readAmount (i : Json) : Except Abort (ItemId × SizeT) := do
  let id ← (← i.constSubscript "id").getSizeT undef
  let amount ← (← i.constSubscript "amount").getSizeT undef
  return (id, amount)

/-- A loop of the constructor: read each element and insert its entry. -/
def insertAll {ν : Type} (read : Json → Except Abort (ItemId × ν)) (m : UnorderedMap ItemId ν) :
    List Json → Except Abort (UnorderedMap ItemId ν)
  | [] => .ok m
  | i :: is => do
    let entry ← read i
    insertAll read (m.insertNew entry.1 entry.2) is

/-- The constructor, from the values parsed from the two files. -/
def ofFiles (dump : Json → String) (itemDescJsonFile itemAmountJsonFile : Json) :
    Except Abort ItemHolder := do
  let itemsDescription ← insertAll (readItem undef locale) ∅ itemDescJsonFile.items
  let itemsAmount ← insertAll (readAmount undef) ∅ itemAmountJsonFile.items
  return { itemsDescription, itemsAmount, itemDescriptionJson := dump itemDescJsonFile }

/-- The constructor, from the texts of the two files. -/
def ofTexts (strtod : Text → Option ℚ) (dumpFloat : ℚ → Text) (descText amountText : String) :
    Except Abort ItemHolder := do
  let itemDescJsonFile ← Json.readStream strtod descText
  let itemAmountJsonFile ← Json.readStream strtod amountText
  ofFiles undef locale (Json.dump dumpFloat) itemDescJsonFile itemAmountJsonFile

/-- The holder of the first item of the production files, without the others. -/
def burger : ItemHolder where
  itemsDescription := (∅ : UnorderedMap ItemId Item).insert 1
    { cost := 730, cookingTime := 970, name := "Atlantik Burger", picUrl := "large.png" }
  itemsAmount := (∅ : UnorderedMap ItemId SizeT).insert 1 7
  itemDescriptionJson := ""

end ItemHolder

end TcpServer
