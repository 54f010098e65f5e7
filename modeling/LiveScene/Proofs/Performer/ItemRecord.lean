import LiveScene.Performer
import LiveScene.Proofs.RecordStore.History
import LiveScene.Proofs.Template.Placeholder

/-!
# LiveScene.Proofs.Performer.ItemRecord

Actions on the record that an item stands for.

* A record of a store has an id, and the placeholder of this field in a text becomes exactly the
  text under which the store knows the record, be it a text or a number
  (`resolveText_idPlaceholder`). It is not searched for placeholders again.
* The actions that delete and update the record of an item therefore find it
  (`performs_on_item`).
-/

namespace LiveScene

open Json (Record)

namespace ItemScope

open RecordStore (idField idOf?)

/-- A name as it can stand in a placeholder: nothing in it separates or ends a path. -/
structure IsPlainName (name : String) : Prop where
  no_point : '.' ∉ name.toList
  no_opening : '\x7b' ∉ name.toList
  no_closing : '\x7d' ∉ name.toList
  trimmed : Text.trim name.toList = name.toList

/-- The placeholder for the id of an item. -/
def idPlaceholder (name : String) : String := placeholder (name ++ "." ++ idField)

/-- The scope of a record under a name. -/
def ofItem (name : String) (item : Record) : ItemScope := ⟨name, .ofRecord item⟩

theorem toList_idPath (name : String) :
    (name ++ "." ++ idField).toList = name.toList ++ '.' :: idField.toList := by
  rw [String.toList_append, String.toList_append, List.append_assoc]
  rfl

theorem lookup?_idPath {name : String} (hname : IsPlainName name) (item : Record) :
    (ofItem name item).lookup? (name ++ "." ++ idField).toList = item.get? idField := by
  have hparts : (Text.splitAt '.' (name ++ "." ++ idField).toList).map Text.trim =
      [name.toList, idField.toList] := by
    rw [toList_idPath, Text.splitAt_append_cons hname.no_point,
      Text.splitAt_of_notMem (by decide), List.map_cons, hname.trimmed]
    rfl
  rw [lookup?, hparts, ofItem]
  dsimp only
  rw [if_pos String.ofList_toList, List.foldlM_cons, Json.ofRecord, child?, String.ofList_toList]
  exact Option.bind_fun_some _

/-- The value of an id field stands in a text as the id that the store knows. -/
theorem inserted_of_idOf? {item : Record} {id : String} (h : idOf? item = some id) :
    ∃ j, item.get? idField = some j ∧ insertedText j = id.toList := by
  rw [idOf?] at h
  split at h
  · next s hget => exact ⟨.str s, hget, congrArg String.toList (Option.some.inj h)⟩
  · next n hget => exact ⟨.num n, hget, congrArg String.toList (Option.some.inj h)⟩
  · cases h

/-- The placeholder for the id becomes the id, whatever characters are in it. -/
theorem resolveText_idPlaceholder {name : String} (hname : IsPlainName name) {item : Record}
    {id : String} (hid : idOf? item = some id) :
    (ofItem name item).resolveText (idPlaceholder name) = id := by
  obtain ⟨j, hget, hinserted⟩ := inserted_of_idOf? hid
  have hlookup := (lookup?_idPath hname item).trans hget
  have hopen : Text.BreaksAt opening ([] ++ opening) [] [] :=
    opensNone_iff.mp (opensNone_of_notMem List.not_mem_nil)
  have hpath : '\x7d' ∉ (name ++ "." ++ idField).toList := by
    rw [toList_idPath, List.mem_append, not_or]
    exact ⟨hname.no_closing, by decide⟩
  have hclosing : ¬ closing <:+: [] ++ (name ++ "." ++ idField).toList ++ ['\x7d'] := by
    rw [List.nil_append, closing, Text.pair_infix_concat_iff, not_or]
    refine ⟨fun hoccurs => hpath (hoccurs.subset List.mem_cons_self), fun hlast => ?_⟩
    exact hpath (List.mem_of_getLast? hlast)
  have hresolved : (ofItem name item).resolveChars
      (opening ++ (name ++ "." ++ idField).toList ++ closing) = id.toList := by
    have hrest := resolveChars_of_not_hasSpan (ofItem name item)
      (not_hasSpan_of_notMem List.not_mem_nil)
    rw [← List.append_nil (opening ++ _ ++ closing), ← List.nil_append (opening ++ _ ++ closing),
      resolveChars_of_opened hopen hclosing, hrest, List.append_nil, List.nil_append,
      List.nil_append, replacement_of_some hlookup, hinserted]
  rw [resolveText, idPlaceholder, placeholder, String.toList_ofList, hresolved,
    String.ofList_toList]

end ItemScope

namespace RecordStore

/-- A patch changes the first record of an id. -/
theorem exists_patchFirst {id : String} {records : List Record}
    (h : some id ∈ records.map idOf?) (patch : Record) :
    ∃ before first rest, records = before ++ first :: rest ∧
      (∀ record ∈ before, idOf? record ≠ some id) ∧ idOf? first = some id ∧
      patchFirst id patch records = before ++ patched first patch :: rest := by
  induction records with
  | nil => cases h
  | cons record r ih =>
      rw [patchFirst]
      split
      · next hid =>
          exact ⟨[], record, r, rfl, fun _ hnone => absurd hnone List.not_mem_nil, hid, rfl⟩
      · next hid =>
          rw [List.map_cons, List.mem_cons] at h
          obtain ⟨before, first, rest, rfl, hbefore, hfirst, heq⟩ :=
            ih (h.resolve_left (Ne.symm hid))
          refine ⟨record :: before, first, rest, rfl, ?_, hfirst, ?_⟩
          · exact List.forall_mem_cons.mpr ⟨hid, hbefore⟩
          · rw [heq, List.cons_append]

end RecordStore

namespace Performer

open ItemScope (IsPlainName idPlaceholder ofItem)
open RecordStore (idField idOf?)

/-- What goes with actions that run for an item in the full-capability context. -/
def forItem (name : String) (item : Record) (params : Params) (now : Duration) : Invocation :=
  ⟨.fullCapability, params, some (ofItem name item), now⟩

/-- In the full-capability context an action that changes records does so, and counts once. -/
theorem perform_mutation {p after : Performer} {i : Invocation} {task : Task}
    (hi : i.context = .fullCapability) (htask : task.isDataMutation = true)
    (hcarried : p.carryOut i task = (after, ∅)) (declared : Option Context) :
    perform i (.mk task declared) p = (after, { executed := 1 }) := by
  have hbarred : isBarred i.context (.mk task declared) = false := by
    rw [isBarred, hi]
    exact Bool.and_false _
  have hfull : p.performFull i task = (after, ∅) := by
    rw [performFull, hcarried]
    dsimp only
    rw [assertFull, if_pos hi, Report.append_empty]
  rw [perform, hbarred]
  cases task with
  | dataCreate | dataUpdate | dataDelete =>
      simp only [Bool.false_eq_true, if_false, performTask, hfull, Report.empty_append]
  | _ => cases htask

/-- The actions that delete and update the record of an item, whose id they give as a placeholder.
The first takes out exactly the records of the same id, the item among them. The second patches the
first of them: its id stays, every other field of the patch takes the place of its own, with the
placeholders in it replaced, and the rest stays. Nothing else changes, in this collection or in
another one. -/
theorem performs_on_item {p : Performer} {ops : List RecordStore.Operation}
    {collection name : String} {item : Record} (hp : p.records = RecordStore.empty.run ops)
    (hname : IsPlainName name) (hitem : item ∈ p.records.all collection) (patch : Record)
    (declared : Option Context) (params : Params) (now : Duration) :
    (∃ records, perform (forItem name item params now)
        (.mk (.dataDelete collection (idPlaceholder name)) declared) p =
          ({ p with records := records }, { executed := 1 }) ∧
      records.all collection =
        (p.records.all collection).filter (fun record => idOf? record ≠ idOf? item) ∧
      item ∉ records.all collection ∧
      ∀ other ≠ collection, records.all other = p.records.all other) ∧
    ∃ records, perform (forItem name item params now)
        (.mk (.dataUpdate collection (idPlaceholder name) patch) declared) p =
          ({ p with records := records }, { executed := 1 }) ∧
      (∃ before first updated rest, p.records.all collection = before ++ first :: rest ∧
        (∀ record ∈ before, idOf? record ≠ idOf? item) ∧ idOf? first = idOf? item ∧
        records.all collection = before ++ updated :: rest ∧
        updated.get? idField = first.get? idField ∧
        ∀ field ≠ idField, updated.get? field =
          ((patch.get? field).map (ofItem name item).resolve).or (first.get? field)) ∧
      ∀ other ≠ collection, records.all other = p.records.all other := by
  obtain ⟨id, hid⟩ : ∃ id, idOf? item = some id := by
    obtain ⟨births, hlists⟩ := RecordStore.exists_lists ops collection
    exact hlists.exists_idOf? (hp ▸ hitem)
  have hmem : some id ∈ (p.records.all collection).map idOf? := hid ▸ List.mem_map_of_mem hitem
  have hresolved := ItemScope.resolveText_idPlaceholder hname hid
  constructor
  · refine ⟨p.records.delete collection id, perform_mutation rfl rfl ?_ declared, ?_, ?_, ?_⟩
    · rw [carryOut, forItem, ItemScope.resolveTextIn, hresolved]
    · rw [RecordStore.all_delete, if_pos rfl, hid]
    · rw [RecordStore.all_delete, if_pos rfl, List.mem_filter, decide_eq_true_eq]
      exact fun h => h.2 hid
    · exact fun other hother => (RecordStore.all_delete _ _ _ _).trans (if_neg hother)
  · refine ⟨p.records.update collection id ((ofItem name item).resolveRecord patch),
      perform_mutation rfl rfl ?_ declared, ?_, ?_⟩
    · rw [carryOut, forItem, ItemScope.resolveTextIn, ItemScope.resolveRecordIn, hresolved]
    · obtain ⟨before, first, rest, hall, hbefore, hfirst, hpatched⟩ :=
        RecordStore.exists_patchFirst hmem ((ofItem name item).resolveRecord patch)
      refine ⟨before, first, RecordStore.patched first ((ofItem name item).resolveRecord patch),
        rest, hall, hid ▸ hbefore, hid ▸ hfirst, ?_, ?_, ?_⟩
      · rw [RecordStore.all_update, if_pos rfl, hpatched]
      · rw [RecordStore.get?_patched, if_pos rfl]
      · intro field hfield
        rw [RecordStore.get?_patched, if_neg hfield, ItemScope.resolveRecord, Dict.get?_mapValues]
    · exact fun other hother => (RecordStore.all_update _ _ _ _ _).trans (if_neg hother)

/-- A record whose id looks like the placeholder for it. -/
def braced : Record :=
  Dict.ofList [("id", .str "\x7b\x7bbook.id\x7d\x7d"), ("shelf", .num (.int 4))]

/-- A patch with a placeholder, and with an id, which no patch can change. -/
def label : Record :=
  Dict.ofList [("id", .str "label"), ("label", .str "on \x7b\x7bbook.shelf\x7d\x7d")]

/-- Records with a count, a number, and braces for an id. -/
def shelved : List RecordStore.Operation :=
  [.create "books" ∅, .create "books" (Dict.ofList [("id", .num (.int 7))]), .create "films" braced,
    .create "books" braced]

/-- A performer with shelves. -/
def librarian : Performer where
  stage := ⟨.new "library", .animator {}, {}⟩
  scheduler := .default
  records := RecordStore.empty.run shelved
  effects := {}
  forwarded := {}
  delays := 0
  chance := .ofSeed 0

/-- The books in front of the one with braces. -/
def unbraced : List Record :=
  [Dict.ofList [("id", .str "books-1")], Dict.ofList [("id", .num (.int 7))]]

theorem all_librarian : librarian.records.all "books" = unbraced ++ [braced] := rfl

theorem performs_on_item_braced :
    IsPlainName "book" ∧ braced ∈ librarian.records.all "books" ∧
      (∃ records, perform (forItem "book" braced ∅ .zero)
          (.mk (.dataDelete "books" (idPlaceholder "book")) none) librarian =
            ({ librarian with records := records }, { executed := 1 }) ∧
        records.ids "books" = [some "books-1", some "7"] ∧
        records.all "films" = librarian.records.all "films") ∧
      ∃ records updated, perform (forItem "book" braced ∅ .zero)
          (.mk (.dataUpdate "books" (idPlaceholder "book") label) none) librarian =
            ({ librarian with records := records }, { executed := 1 }) ∧
        records.all "books" = unbraced ++ [updated] ∧
        idOf? updated = idOf? braced ∧
        updated.get? "label" = some (.str "on 4") ∧
        updated.get? "shelf" = some (.num (.int 4)) ∧
        records.all "films" = librarian.records.all "films" := by
  have hname : IsPlainName "book" := ⟨by decide, by decide, by decide, by decide⟩
  have hitem : braced ∈ librarian.records.all "books" := by
    rw [all_librarian]
    exact List.mem_append_right _ List.mem_cons_self
  obtain ⟨⟨kept, hdelete, hkept, -, hkeptOther⟩, records, hupdate, hpatched, hother⟩ :=
    performs_on_item (p := librarian) rfl hname hitem label none ∅ .zero
  obtain ⟨before, first, updated, rest, hbooks, -, hfirst, hall, hid, hfield⟩ := hpatched
  have hids : idOf? braced ∉ unbraced.map idOf? := by decide +kernel
  have hnew : first ∉ unbraced := fun hmem => hids (hfirst ▸ List.mem_map_of_mem hmem)
  obtain ⟨rfl, rfl, rfl⟩ := (List.append_cons_inj_of_notMem hnew List.not_mem_nil).mp
    (all_librarian.symm.trans hbooks)
  refine ⟨hname, hitem, ⟨kept, hdelete, ?_, hkeptOther "films" (by decide)⟩, records, updated,
    hupdate, hall, ?_, ?_, ?_, hother "films" (by decide)⟩
  · rw [RecordStore.ids, hkept]
    decide +kernel
  · rw [idOf?, hid, idOf?]
  · have hlabel : label.get? "label" = some (.str "on \x7b\x7bbook.shelf\x7d\x7d") := rfl
    have honly : (ofItem "book" braced).onlyValue? "on \x7b\x7bbook.shelf\x7d\x7d" = none := rfl
    have htext : (ofItem "book" braced).resolveText "on \x7b\x7bbook.shelf\x7d\x7d" = "on 4" := by
      decide +kernel
    rw [hfield "label" (by decide), hlabel, Option.map_some, ItemScope.resolve,
      ItemScope.resolveString, honly, htext, Option.some_or]
  · rw [hfield "shelf" (by decide)]
    rfl

end Performer

end LiveScene
