import RainMeta.Document

/-!
# Items of CBOR documents

* `Cbor.Item`: what a CBOR document holds.
* `Cbor.Library`: what is left to the library that reads CBOR.

Tags are an open list. For some of them the library makes objects of its own, such as decimal
fractions, messages or sets, and for a reference it goes back in the document. None of that is
described here. An object is just a number, and what can be asked about it is answered by the
library.
-/

namespace RainMeta.Cbor

/-- An item of a CBOR document. -/
inductive Item
  | int (i : Int)
  | bytes (b : Bytes)
  | text (t : Text)
  | list (items : List Item)
  | map (entries : List (Item × Item))
  /-- An item with a tag that nothing is made of. -/
  | tagged (tag : Nat) (item : Item)
  | bool (b : Bool)
  | null
  | undefined
  | simple (n : Nat)
  | float (x : Binary64)
  /-- The mark that ends an item of indefinite length, where it stands for itself. -/
  | stop
  /-- An object that the library makes of a tag. -/
  | object (n : Nat)
  deriving Inhabited

mutual

/-- Whether an object stands somewhere in an item. -/
def Item.hasObject : Item → Bool
  | .object _ => true
  | .list items => itemsHaveObject items
  | .map entries => entriesHaveObject entries
  | .tagged _ item => item.hasObject
  | _ => false

/-- Whether an object stands somewhere in a list of items. -/
def itemsHaveObject : List Item → Bool
  | [] => false
  | item :: rest => item.hasObject || itemsHaveObject rest

/-- Whether an object stands somewhere in the entries of a map. -/
def entriesHaveObject : List (Item × Item) → Bool
  | [] => false
  | (k, v) :: rest => k.hasObject || v.hasObject || entriesHaveObject rest

end

/-- How using an object in the place of a plain item fails. -/
inductive Misfit
  /-- As it does for items of a wrong sort, with words about it. -/
  | refused (words : Text)
  /-- In any other way. -/
  | escaped
  deriving DecidableEq

/-- What is left to the library that reads CBOR. -/
structure Library where
  /-- What a tag of a document makes of the bytes after it: an item, and the bytes after that. A
  reference may go back in the document; `read` reads an item. -/
  resolve (document : Bytes) (tag : Nat) (read : Bytes → Option (Item × Bytes)) (b : Bytes) :
    Option (Item × Bytes)
  /-- Whether the library gets through a document. It may give up where its stack ends, or at an
  object that cannot be the key of a map. -/
  completes (document : Bytes) : Bool
  /-- Whether an object is the same key of a map as an item. -/
  isKey (object : Nat) (item : Item) : Bool
  /-- What an item with objects in it is worth as a field of an envelope: an item without objects
  that does the same there. -/
  worth (field : Nat) (item : Item) : Except Misfit Item

end RainMeta.Cbor
