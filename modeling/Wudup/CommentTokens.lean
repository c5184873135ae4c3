import Mathlib.Data.List.ReduceOption
import Mathlib.Logic.Function.Basic
import Wudup.ComposeRender

/-! Comments as objects: the tokens around a service, which lists and slots may share, and how the markers in them
are read, cleared and written. -/
namespace Wudup
open Library

/-- What a list of comments holds. A token has a text; what else is there has none, and none can be set. -/
inductive Comment where
  | token (ref : ℕ)
  | other (ref : ℕ)
  deriving DecidableEq, Repr

/-- A place for comments. -/
inductive CommentSlot where
  | none
  | token (ref : ℕ)
  | list (ref : ℕ)
  | other
  deriving DecidableEq, Repr

/-- The tokens, the lists of comments and the rows of slots by number: what has one number is one object. -/
structure CommentStore where
  value : ℕ → Str
  elements : ℕ → List Comment
  slots : ℕ → List CommentSlot

/-- The slots around a service: its own, those its key has among the services, those of its keys, and the list of
comments at its end. -/
structure ServiceComments where
  comment : Option ℕ
  item : Option ℕ
  items : Str → Option ℕ
  keys : List Str
  tail : Option ℕ

inductive MarkerError where
  | rewrite (error : RewriteError)
  /-- An attribute is read or set that an object does not have. -/
  | attributeError
  deriving DecidableEq, Repr

abbrev Marking := Except MarkerError

/-- Tokens that are cleared together, with where they are put back. -/
inductive CommentTokenList where
  | slotList (slots index list : ℕ)
  | standalone (slots index token : ℕ)
  | whole (list : ℕ)
  deriving DecidableEq, Repr

def Comment.isCommentToken : Comment → Bool
  | token _ => true
  | other _ => false

namespace CommentStore

def setValue (store : CommentStore) (ref : ℕ) (value : Str) : CommentStore :=
  { store with value := Function.update store.value ref value }

def setElements (store : CommentStore) (list : ℕ) (elements : List Comment) : CommentStore :=
  { store with elements := Function.update store.elements list elements }

def setSlot (store : CommentStore) (slots index : ℕ) (slot : CommentSlot) : CommentStore :=
  { store with slots := Function.update store.slots slots ((store.slots slots).set index slot) }

/-- A list is collected when a token is in it. -/
def appendCommentTokenList (store : CommentStore) (list : ℕ) (tokens : CommentTokenList) : List CommentTokenList :=
  if (store.elements list).any Comment.isCommentToken then [tokens] else []

def appendCommentSlots (store : CommentStore) (slots : ℕ) : List CommentTokenList :=
  (store.slots slots).zipIdx.flatMap fun (slot,index) =>
    match slot with
    | .list list => store.appendCommentTokenList list (.slotList slots index list)
    | .token token => [.standalone slots index token]
    | _ => []

end CommentStore

/-- The rows of slots around a service, in the order in which they are looked through. -/
def ServiceComments.slotRefs (comments : ServiceComments) : List ℕ :=
  ([comments.comment,comments.item] ++ comments.keys.map comments.items).reduceOption

namespace CommentStore

def serviceCommentTokenLists (store : CommentStore) (comments : ServiceComments) : List CommentTokenList :=
  comments.slotRefs.flatMap store.appendCommentSlots ++
    comments.tail.toList.flatMap fun list => store.appendCommentTokenList list (.whole list)

/-- What a collected list holds now. -/
def tokens (store : CommentStore) : CommentTokenList → List Comment
  | .slotList _ _ list => store.elements list
  | .standalone _ _ token => [.token token]
  | .whole list => store.elements list

/-- Each object around a service once. -/
def serviceCommentTokens (store : CommentStore) (comments : ServiceComments) : List Comment :=
  orderedUnique ((store.serviceCommentTokenLists comments).flatMap store.tokens)

def commentMarkers (store : CommentStore) : Comment → List Str
  | .token token => commentTokenResolvedTagMarkers (store.value token)
  | .other _ => []

def serviceResolvedTagMarker (store : CommentStore) (comments : ServiceComments) (service : Str) : Rewrite Str :=
  match orderedUnique ((store.serviceCommentTokens comments).flatMap store.commentMarkers) with
  | [] => .ok []
  | [tag] =>
    if tagValueValid tag then .ok tag
    else refuse s!"Service {text service} resolved-tag marker has invalid tag {text tag}."
  | tags => .error (.resolvedTagMarkerConflict service (tags.insertionSort (· ≤ ·)))

/-- The tokens of a list are cleared one after the other; those with text left are kept. -/
def clearTokens (store : CommentStore) : List Comment → Marking (CommentStore × List Comment)
  | [] => .ok (store,[])
  | .other _ :: _ => .error .attributeError
  | .token token :: rest => do
    let value := clearCommentTokenResolvedTagMarkers (store.value token)
    let (store,kept) ← (store.setValue token value).clearTokens rest
    return (store,if value = [] then kept else .token token :: kept)

/-- What is kept of a collected list is put back; where nothing is, its slot is emptied. -/
def replace (store : CommentStore) (kept : List Comment) : CommentTokenList → CommentStore
  | .slotList slots index list =>
    (store.setElements list kept).setSlot slots index (if kept = [] then .none else .list list)
  | .standalone slots index token => store.setSlot slots index (if kept = [] then .none else .token token)
  | .whole list => store.setElements list kept

def clearTokenList (store : CommentStore) (tokenList : CommentTokenList) : Marking CommentStore := do
  let (store,kept) ← store.clearTokens (store.tokens tokenList)
  return store.replace kept tokenList

/-- A slot that holds an empty list is emptied. -/
def emptyDetached (store : CommentStore) (slots : Option ℕ) (index : ℕ) : CommentStore :=
  match slots with
  | none => store
  | some slots =>
    match (store.slots slots)[index]? with
    | some (.list list) => if store.elements list = [] then store.setSlot slots index .none else store
    | _ => store

def emptyDetachedServiceCommentLists (store : CommentStore) (comments : ServiceComments) : CommentStore :=
  (store.emptyDetached comments.comment 1).emptyDetached comments.item 3

def clearServiceResolvedTagMarkers (store : CommentStore) (comments : ServiceComments) (service : Str) :
    Marking CommentStore := do
  let store ← (store.serviceCommentTokenLists comments).foldlM clearTokenList store
  let store := store.emptyDetachedServiceCommentLists comments
  match store.serviceResolvedTagMarker comments service with
  | .error error => .error (.rewrite error)
  | .ok [] => return store
  | .ok _ =>
    .error (.rewrite (.composeTagRewrite s!"Service {text service} resolved-tag marker is attached ambiguously."))

end CommentStore

/-- How the library puts a comment before a key of a service. -/
abbrev CommentWriter :=
  CommentStore → ServiceComments → (key before : Str) → Marking (CommentStore × ServiceComments)

def CommentStore.updateServiceResolvedTagMarker (store : CommentStore) (writer : CommentWriter)
    (comments : ServiceComments) (service marker : Str) : Marking (CommentStore × ServiceComments) := do
  let store ← store.clearServiceResolvedTagMarkers comments service
  if marker = [] then return (store,comments)
  writer store comments "image".toList marker

end Wudup
