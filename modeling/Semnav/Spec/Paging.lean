import Mathlib.Data.Prod.Lex
import Mathlib.Data.String.Basic
import Semnav.Query.Ops
import Semnav.Spec.DbInvariant

/-!
# Paging through results

A client walks the pages of a result by handing each page's token back with the next request.
The list that is paged may be another one on each request, for the graph changes; as long as
each is sorted, the walk returns nothing twice and misses nothing that was there all along.

## Key results

- `paginate_served`: one page
- `Cursor.decode_encode`: a token gives its cursor back, by what the libraries do with its payload
- `paging_sound_complete`: a whole walk, over changing lists and over a fixed one
- `findSymbol_pages`: a walk through `find_symbol`, while the graph changes
-/

namespace Semnav.Query

open Semnav.Graph

/-! ## The order on sort keys -/

/-- The four parts of a key, compared one after the other. -/
def SortKey.parts (k : SortKey) : String ×ₗ String ×ₗ Int ×ₗ Int :=
  toLex (k.fqn, toLex (k.uri, toLex (k.startLine, k.startCol)))

/-- A sort key is its parts. -/
private theorem SortKey.parts_injective : Function.Injective SortKey.parts := by
  intro a b h
  obtain ⟨fqn, uri, line, col⟩ := a
  obtain ⟨fqn', uri', line', col'⟩ := b
  simp only [SortKey.parts, EmbeddingLike.apply_eq_iff_eq, Prod.mk.injEq] at h
  obtain ⟨rfl, rfl, rfl, rfl⟩ := h
  rfl

instance : LinearOrder SortKey := LinearOrder.lift' SortKey.parts SortKey.parts_injective

/-- The parts of a sort key are compared in turn. -/
theorem SortKey.lt_iff {a b : SortKey} : a < b ↔ a.fqn < b.fqn ∨ a.fqn = b.fqn ∧
    (a.uri < b.uri ∨ a.uri = b.uri ∧ (a.startLine < b.startLine ∨
      a.startLine = b.startLine ∧ a.startCol < b.startCol)) := by
  show a.parts < b.parts ↔ _
  simp [SortKey.parts, Prod.Lex.toLex_lt_toLex]

/-- The derived comparison decides that order. -/
theorem SortKey.cmp_eq_gt_iff {a b : SortKey} : a.cmp b = .gt ↔ b < a := by
  rw [SortKey.lt_iff]
  simp only [SortKey.cmp, Ordering.then_eq_gt, compare_gt_iff_gt, compare_eq_iff_eq]
  simp only [eq_comm]

/-! ## One page -/

section Page

variable {α : Type} {keyOf : α → SortKey} {items kept : List α} {page : Page}
  {next : Option Cursor}

/-- The key comes after the cursor, if there is one. -/
def After (cursor : Option Cursor) (k : SortKey) : Prop := ∀ c ∈ cursor, c.key < k

/-- What a page is: the next items after the cursor, with a cursor at the last of them unless they
    are all that is left. -/
structure Served (keyOf : α → SortKey) (items : List α) (cursor : Option Cursor) (kept : List α)
    (next : Option Cursor) : Prop where
  sorted : kept.Pairwise fun a b => keyOf a < keyOf b
  mem : ∀ x ∈ kept, x ∈ items ∧ After cursor (keyOf x)
  /-- An item that is not on the page yet comes after its cursor. -/
  complete : ∀ x ∈ items, After cursor (keyOf x) → x ∈ kept ∨ ∃ c ∈ next, c.key < keyOf x
  last : ∀ c ∈ next, (∃ y ∈ kept, c.key = keyOf y) ∧ ∀ x ∈ kept, keyOf x ≤ c.key

/-- The items that are left when the cursor has been passed. -/
private theorem paginate_eq (items : List α) (page : Page) (keyOf : α → SortKey) :
    ∃ (rest : List α) (limit : Nat), 1 ≤ limit ∧ (∀ x, x ∈ rest ↔ x ∈ items ∧ After page.cursor (keyOf x)) ∧
      rest.Sublist items ∧ paginate items page keyOf = (rest.take limit,
        if rest.length > limit then rest[limit - 1]?.map fun t => ⟨keyOf t⟩ else none) := by
  cases hcursor : page.cursor with
  | none =>
    refine ⟨items, max 1 (min page.limit maxPageLimit), Nat.le_max_left 1 _, fun x => ?_, .refl _, ?_⟩
    · simp [After]
    · simp only [paginate, hcursor]
  | some cur =>
    refine ⟨items.filter fun t => decide ((keyOf t).cmp cur.key = .gt),
      max 1 (min page.limit maxPageLimit), Nat.le_max_left 1 _, fun x => ?_, List.filter_sublist, ?_⟩
    · simp [After, SortKey.cmp_eq_gt_iff]
    · simp only [paginate, hcursor]

/-- A page of sorted items serves what follows the cursor. -/
theorem paginate_served (hsorted : items.Pairwise fun a b => keyOf a < keyOf b)
    (h : paginate items page keyOf = (kept, next)) :
    Served keyOf items page.cursor kept next := by
  obtain ⟨rest, limit, hlimit, hmem, hsub, heq⟩ := paginate_eq items page keyOf
  obtain ⟨rfl, rfl⟩ := Prod.mk.inj (heq.symm.trans h)
  have hrest : rest.Pairwise fun a b => keyOf a < keyOf b := hsorted.sublist hsub
  -- The last item that is kept, if more remain.
  have hlast : ∀ c : Cursor, (if rest.length > limit then rest[limit - 1]?.map fun t => ⟨keyOf t⟩
      else none) = some c → ∃ h : limit - 1 < rest.length, limit < rest.length ∧
        c.key = keyOf (rest.get ⟨limit - 1, h⟩) := by
    intro c hc
    split at hc
    · obtain ⟨y, hy, rfl⟩ := Option.map_eq_some_iff.mp hc
      obtain ⟨hlt, rfl⟩ := List.getElem?_eq_some_iff.mp hy
      exact ⟨hlt, ‹_›, rfl⟩
    · exact nomatch hc
  refine ⟨hrest.sublist (List.take_sublist _ _), ?_, ?_, ?_⟩
  · intro x hx
    exact (hmem x).mp (List.mem_of_mem_take hx)
  · intro x hx hafter
    obtain ⟨j, hj, rfl⟩ := List.getElem_of_mem ((hmem x).mpr ⟨hx, hafter⟩)
    by_cases hkept : j < limit
    · exact .inl (List.mem_take_iff_getElem.mpr ⟨j, by omega, rfl⟩)
    · -- Beyond the page: after its last item.
      have hlt : limit - 1 < rest.length := by omega
      refine .inr ⟨⟨keyOf (rest.get ⟨limit - 1, hlt⟩)⟩, ?_, ?_⟩
      · rw [if_pos (by omega), List.getElem?_eq_getElem hlt]
        rfl
      · exact List.pairwise_iff_getElem.mp hrest (limit - 1) j hlt hj (by omega)
  · intro c hc
    obtain ⟨hlt, -, hkey⟩ := hlast c hc
    refine ⟨⟨_, List.mem_take_iff_getElem.mpr ⟨limit - 1, by omega, rfl⟩, hkey⟩, ?_⟩
    intro x hx
    obtain ⟨j, hj, rfl⟩ := List.mem_take_iff_getElem.mp hx
    rw [hkey]
    by_cases hj' : j = limit - 1
    · subst hj'
      exact le_refl _
    · exact le_of_lt (List.pairwise_iff_getElem.mp hrest j (limit - 1) (by omega) hlt (by omega))

end Page

/-! ## A walk -/

section Walk

variable {α : Type} {keyOf : α → SortKey}

/-- The payload with the parts of a key. -/
def SortKey.payload (k : SortKey) : CursorPayload := ⟨k.fqn, k.uri, k.startLine, k.startCol⟩

/-- `serde_json` and base64 lose nothing of a payload: it is printed as bytes that it is parsed from,
    and the bytes are encoded to a token that decodes to them. -/
structure CursorCodec.Lossless (E : CursorCodec) (p : CursorPayload) : Prop where
  roundTrip : ∃ bytes, E.toVec p = .ok bytes ∧ E.fromSlice bytes = .ok p ∧
    E.decode (E.encode bytes) = .ok bytes

/-- The token of a cursor gives it back. -/
private theorem Cursor.decode_encode {E : CursorCodec} {cur : Cursor}
    (hE : E.Lossless cur.key.payload) :
    Cursor.decode E (cur.encode E) = .ok cur := by
  obtain ⟨bytes, hprinted, hparsed, htoken⟩ := hE.roundTrip
  have hencode : cur.encode E = E.encode bytes := by
    show E.encode ((E.toVec cur.key.payload).toOption.getD []) = _
    rw [hprinted]
    rfl
  simp only [Cursor.decode, hencode, htoken, hparsed]
  rfl

/-- How far a client has walked: what it was given, and its next request, if there is one. -/
structure WalkState (α : Type) where
  returned : List α
  request : Option PageInput

/-- Answer the next request from the list as it is now. -/
def walkStep (E : CursorCodec) (keyOf : α → SortKey) (limit : Nat) (items : List α)
    (w : WalkState α) : Except String (WalkState α) :=
  match w.request with
  | none => .ok w
  | some input =>
    match input.intoPage E with
    | .error e => .error e
    | .ok page =>
      let (kept, next) := paginate items page keyOf
      .ok ⟨w.returned ++ kept, next.map fun c => ⟨some limit, some (c.encode E)⟩⟩

/-- The walk after `n` requests, the `i`-th one served from `lists i`. -/
def walk (E : CursorCodec) (keyOf : α → SortKey) (limit : Nat) (lists : Nat → List α) :
    Nat → Except String (WalkState α)
  | 0 => .ok ⟨[], some ⟨some limit, none⟩⟩
  | n + 1 =>
    match walk E keyOf limit lists n with
    | .error e => .error e
    | .ok w => walkStep E keyOf limit (lists n) w

/-- What holds after `n` requests. -/
structure WalkInv (E : CursorCodec) (keyOf : α → SortKey) (limit : Nat) (lists : Nat → List α)
    (n : Nat) (w : WalkState α) : Prop where
  sorted : w.returned.Pairwise fun a b => keyOf a < keyOf b
  mem : ∀ x ∈ w.returned, ∃ i < n, x ∈ lists i
  /-- The next request carries a cursor at the last item, before which nothing was missed. -/
  request : ∀ input ∈ w.request, ∃ cursor : Option Cursor,
    input = ⟨some limit, cursor.map fun c => c.encode E⟩ ∧
    (∀ c ∈ cursor, ∃ i < n, ∃ y ∈ lists i, c.key = keyOf y) ∧
    (∀ x ∈ w.returned, ∃ c ∈ cursor, keyOf x ≤ c.key) ∧
    ∀ x, (∀ i < n, x ∈ lists i) → x ∈ w.returned ∨ After cursor (keyOf x)
  ended : w.request = none → ∀ x, (∀ i < n, x ∈ lists i) → x ∈ w.returned
  /-- As long as the walk goes on, each page has an item. -/
  progress : w.request ≠ none → n ≤ w.returned.length

variable {E : CursorCodec} {limit n : Nat} {lists : Nat → List α} {w w' : WalkState α}

/-- Before the first page nothing has been served. -/
private theorem walkInv_zero : WalkInv E keyOf limit lists 0 ⟨[], some ⟨some limit, none⟩⟩ where
  sorted := .nil
  mem := by simp
  request := by
    intro input hinput
    cases hinput
    exact ⟨none, rfl, by simp, by simp, fun x _ => .inr (by simp [After])⟩
  ended := fun h => nomatch h
  progress := fun _ => Nat.zero_le _

/-- The page that a request with a good token asks for. -/
private theorem intoPage_ok {cursor : Option Cursor} (hE : ∀ c ∈ cursor, E.Lossless c.key.payload) :
    ∃ page, PageInput.intoPage E ⟨some limit, cursor.map fun c => c.encode E⟩ = .ok page ∧
      page.cursor = cursor := by
  cases cursor with
  | none => exact ⟨_, rfl, rfl⟩
  | some c =>
    have hc : Cursor.decode E (c.encode E) = .ok c := Cursor.decode_encode (hE c rfl)
    simp only [PageInput.intoPage, Option.map_some, hc]
    exact ⟨_, rfl, rfl⟩

/-- One request. -/
private theorem WalkInv.step (h : WalkInv E keyOf limit lists n w)
    (hsorted : ∀ i, (lists i).Pairwise fun a b => keyOf a < keyOf b)
    (hE : ∀ i, ∀ x ∈ lists i, E.Lossless (keyOf x).payload) :
    ∃ w', walkStep E keyOf limit (lists n) w = .ok w' ∧
      WalkInv E keyOf limit lists (n + 1) w' := by
  unfold walkStep
  cases hreq : w.request with
  | none =>
    -- The walk has ended, and a longer one is no other.
    refine ⟨w, rfl, {
      sorted := h.sorted
      mem := fun x hx => ?_
      request := fun input hinput => ?_
      ended := fun _ x hx => ?_
      progress := fun hne => absurd hreq hne }⟩
    · obtain ⟨i, hi, hxi⟩ := h.mem x hx
      exact ⟨i, by omega, hxi⟩
    · cases hreq.symm.trans hinput
    · exact h.ended hreq x fun i hi => hx i (by omega)
  | some input =>
    obtain ⟨cursor, rfl, hkey, hle, hmissed⟩ := h.request input hreq
    have hlossless : ∀ c ∈ cursor, E.Lossless c.key.payload := by
      intro c hc
      obtain ⟨i, -, y, hy, hckey⟩ := hkey c hc
      rw [hckey]
      exact hE i y hy
    obtain ⟨page, hpage, hcursor⟩ : ∃ page, PageInput.intoPage E
        ⟨some limit, cursor.map fun c => c.encode E⟩ = .ok page ∧ page.cursor = cursor :=
      intoPage_ok hlossless
    simp only [hpage]
    rcases hserve : paginate (lists n) page keyOf with ⟨kept, next⟩
    have hserved := paginate_served (hsorted n) hserve
    rw [hcursor] at hserved
    -- What was in every list is returned by now, or comes after the next cursor.
    have hlater : ∀ x, (∀ i < n + 1, x ∈ lists i) →
        x ∈ w.returned ++ kept ∨ ∃ c, next = some c ∧ c.key < keyOf x := by
      intro x hx
      cases hmissed x fun i hi => hx i (by omega) with
      | inl hold => exact .inl (List.mem_append_left _ hold)
      | inr hafter =>
        cases hserved.complete x (hx n (by omega)) hafter with
        | inl hnew => exact .inl (List.mem_append_right _ hnew)
        | inr hlater => exact .inr hlater
    refine ⟨_, rfl, {
      sorted := ?sorted
      mem := ?mem
      request := ?request
      ended := ?ended
      progress := ?progress }⟩
    case sorted =>
      -- The new page comes after what was returned.
      refine List.pairwise_append.mpr ⟨h.sorted, hserved.sorted, fun x hx y hy => ?_⟩
      obtain ⟨c, hc, hxc⟩ := hle x hx
      exact lt_of_le_of_lt hxc ((hserved.mem y hy).2 c hc)
    case mem =>
      intro x hx
      cases List.mem_append.mp hx with
      | inl hold =>
        obtain ⟨i, hi, hxi⟩ := h.mem x hold
        exact ⟨i, by omega, hxi⟩
      | inr hnew => exact ⟨n, by omega, (hserved.mem x hnew).1⟩
    case request =>
      intro input hinput
      obtain ⟨c, hc, rfl⟩ := Option.map_eq_some_iff.mp hinput
      obtain ⟨⟨y, hy, hckey⟩, hlast⟩ := hserved.last c hc
      refine ⟨some c, rfl, ?_, ?_, ?_⟩
      · intro c' hc'
        cases hc'
        exact ⟨n, by omega, y, (hserved.mem y hy).1, hckey⟩
      · intro x hx
        refine ⟨c, rfl, ?_⟩
        cases List.mem_append.mp hx with
        | inl hold =>
          obtain ⟨c', hc', hxc⟩ := hle x hold
          exact le_trans hxc (le_of_lt (hckey ▸ (hserved.mem y hy).2 c' hc'))
        | inr hnew => exact hlast x hnew
      · intro x hx
        refine (hlater x hx).imp_right fun hafter c'' hc'' => ?_
        obtain ⟨c', hc', hlt⟩ := hafter
        cases hc''
        cases hc.symm.trans hc'
        exact hlt
    case ended =>
      intro hended x hx
      have hnext : next = none := Option.map_eq_none_iff.mp hended
      cases hlater x hx with
      | inl hreturned => exact hreturned
      | inr hafter =>
        obtain ⟨c', hc', -⟩ := hafter
        cases hnext.symm.trans hc'
    case progress =>
      intro hgoes
      obtain ⟨c, hc⟩ : ∃ c, next = some c := by
        cases next with
        | none => exact absurd rfl hgoes
        | some c => exact ⟨c, rfl⟩
      obtain ⟨⟨y, hy, -⟩, -⟩ := hserved.last c hc
      have hn := h.progress (by simp [hreq])
      have hpos := List.length_pos_of_mem hy
      show n + 1 ≤ (w.returned ++ kept).length
      rw [List.length_append]
      omega

/-- A walk never fails, and keeps the invariant. -/
theorem walk_inv (hsorted : ∀ i, (lists i).Pairwise fun a b => keyOf a < keyOf b)
    (hE : ∀ i, ∀ x ∈ lists i, E.Lossless (keyOf x).payload) (n : Nat) :
    ∃ w, walk E keyOf limit lists n = .ok w ∧ WalkInv E keyOf limit lists n w := by
  induction n with
  | zero => exact ⟨_, rfl, walkInv_zero⟩
  | succ n ih =>
    obtain ⟨w, hw, hinv⟩ := ih
    obtain ⟨w', hw', hinv'⟩ := hinv.step hsorted hE
    exact ⟨w', by simp only [walk, hw, hw'], hinv'⟩

/-- Over changing lists, each sorted by its keys with every key once: no request of a walk fails,
    the keys returned are strictly increasing, and a walk that has ended returned every item once
    that was in all the lists.  Over one list a walk ends, and has returned that list. -/
theorem paging_sound_complete (E : CursorCodec) (keyOf : α → SortKey) (limit : Nat) :
    (∀ lists : Nat → List α, (∀ i, (lists i).Pairwise fun a b => keyOf a < keyOf b) →
      (∀ i, ∀ x ∈ lists i, E.Lossless (keyOf x).payload) →
      ∀ n, ∃ w, walk E keyOf limit lists n = .ok w ∧
        w.returned.Pairwise (fun a b => keyOf a < keyOf b) ∧
        (w.request = none → ∀ x, (∀ i < n, x ∈ lists i) →
          ∃ before after, w.returned = before ++ x :: after ∧ x ∉ before ∧ x ∉ after)) ∧
    (∀ list : List α, list.Pairwise (fun a b => keyOf a < keyOf b) →
      (∀ x ∈ list, E.Lossless (keyOf x).payload) →
      ∃ n, walk E keyOf limit (fun _ => list) n = .ok ⟨list, none⟩) := by
  constructor
  · intro lists hsorted hE n
    obtain ⟨w, hw, hinv⟩ : ∃ w, walk E keyOf limit lists n = .ok w ∧
        WalkInv E keyOf limit lists n w := walk_inv hsorted hE n
    refine ⟨w, hw, hinv.sorted, fun hended x hx => ?_⟩
    obtain ⟨before, after, hsplit⟩ := List.append_of_mem (hinv.ended hended x hx)
    have hpairwise := hinv.sorted
    rw [hsplit, List.pairwise_append, List.pairwise_cons] at hpairwise
    obtain ⟨-, ⟨hafter, -⟩, hbefore⟩ := hpairwise
    refine ⟨before, after, hsplit, fun hmem => ?_, fun hmem => ?_⟩
    · exact lt_irrefl _ (hbefore x hmem x List.mem_cons_self)
    · exact lt_irrefl _ (hafter x hmem)
  · intro list hsorted hE
    obtain ⟨w, hw, hinv⟩ : ∃ w, walk E keyOf limit (fun _ => list) (list.length + 1) = .ok w ∧
        WalkInv E keyOf limit (fun _ => list) (list.length + 1) w :=
      walk_inv (fun _ => hsorted) (fun _ => hE) (list.length + 1)
    have hmem : ∀ x ∈ w.returned, x ∈ list := fun x hx => (hinv.mem x hx).choose_spec.2
    have hne : ∀ {l : List α}, l.Pairwise (fun a b => keyOf a < keyOf b) → l.Nodup := by
      intro l h
      refine h.imp fun {a b} hlt heq => ?_
      subst heq
      exact lt_irrefl _ hlt
    -- More pages than items: the walk must have ended.
    have hended : w.request = none := by
      by_contra hgoes
      have hlong := hinv.progress hgoes
      have hshort := (List.subperm_of_subset (hne hinv.sorted) hmem).length_le
      omega
    have hperm : w.returned.Perm list := by
      refine (List.perm_ext_iff_of_nodup (hne hinv.sorted) (hne hsorted)).mpr fun x => ⟨hmem x, ?_⟩
      exact fun hx => hinv.ended hended x fun _ _ => hx
    have heq : w.returned = list := hperm.eq_of_pairwise
      (fun a b _ _ hab hba => absurd (lt_trans hab hba) (lt_irrefl _)) hinv.sorted hsorted
    refine ⟨list.length + 1, hw.trans (congrArg _ ?_)⟩
    obtain ⟨returned, request⟩ := w
    obtain rfl : returned = list := heq
    obtain rfl : request = none := hended
    rfl

end Walk

/-- The bytes of a text in ASCII. -/
def asciiBytes (s : String) : List UInt8 := s.toList.map fun c => UInt8.ofNat c.toNat

/-- Two symbols of one name that start on one line. -/
def firstKey : SortKey := ⟨"a", "u", 3, 7⟩

/-- The second of them. -/
def secondKey : SortKey := ⟨"a", "u", 3, 12⟩

/-- The payload of the first as `serde_json` prints it. -/
def firstBytes : List UInt8 := asciiBytes "\x7b\"f\":\"a\",\"u\":\"u\",\"l\":3,\"c\":7\x7d"

/-- The bytes of the second token. -/
def secondBytes : List UInt8 := asciiBytes "\x7b\"f\":\"a\",\"u\":\"u\",\"l\":3,\"c\":12\x7d"

/-- What the two libraries do with the payloads of the two keys. -/
def twoKeyCodec : CursorCodec where
  toVec p :=
    if p = firstKey.payload then .ok firstBytes
    else if p = secondKey.payload then .ok secondBytes
    else .error "not printed here"
  fromSlice bytes :=
    if bytes = firstBytes then .ok firstKey.payload
    else if bytes = secondBytes then .ok secondKey.payload
    else .error "expected value at line 1 column 1"
  encode bytes :=
    if bytes = firstBytes then "eyJmIjoiYSIsInUiOiJ1IiwibCI6MywiYyI6N30"
    else "eyJmIjoiYSIsInUiOiJ1IiwibCI6MywiYyI6MTJ9"
  decode token :=
    if token = "eyJmIjoiYSIsInUiOiJ1IiwibCI6MywiYyI6N30" then .ok firstBytes
    else if token = "eyJmIjoiYSIsInUiOiJ1IiwibCI6MywiYyI6MTJ9" then .ok secondBytes
    else .error "Invalid padding"

/-- Two keys in pages of one. -/
theorem paging_two_keys :
    ∃ n, walk twoKeyCodec id 1 (fun _ => [firstKey, secondKey]) n =
      .ok ⟨[firstKey, secondKey], none⟩ := by
  refine (paging_sound_complete twoKeyCodec id 1).2 _ ?_ ?_
  · simp only [List.pairwise_pair, id, SortKey.lt_iff]
    decide
  · simp only [List.mem_cons, List.not_mem_nil, or_false, forall_eq_or_imp, forall_eq]
    exact ⟨⟨firstBytes, by decide⟩, ⟨secondBytes, by decide⟩⟩

/-! ## The lists of `find_symbol` -/

/-- The nodes listed are rows. -/
private theorem mem_listNodes {db : Db} {language : Option String} {n : Node}
    (hn : n ∈ db.listNodes language) : n ∈ db.nodes :=
  (List.mem_filter.mp ((List.mem_insertionSort _).mp hn)).1

/-- The nodes listed are sorted by their keys, each key once. -/
private theorem listNodes_sorted {db : Db} (h : db.WF) (language : Option String) :
    (db.listNodes language).Pairwise fun a b => SortKey.fromNode a < SortKey.fromNode b := by
  have hle : ∀ a b : Node, nodeCmp a b ≠ .gt ↔ SortKey.fromNode a ≤ SortKey.fromNode b := by
    intro a b
    rw [← not_lt, ← SortKey.cmp_eq_gt_iff]
    rfl
  have htotal : Std.Total fun a b : Node => nodeCmp a b ≠ .gt :=
    ⟨fun a b => by simpa only [hle] using le_total _ _⟩
  have htrans : IsTrans Node fun a b => nodeCmp a b ≠ .gt :=
    ⟨fun a b c => by simpa only [hle] using le_trans⟩
  have hsorted := List.pairwise_insertionSort (fun a b : Node => nodeCmp a b ≠ .gt)
    (db.nodes.filter fun n => n.valid && language.all (n.language == ·))
  have hnodup : (db.listNodes language).Nodup :=
    (List.perm_insertionSort _ _).nodup_iff.mpr (h.ids_nodup.of_map.filter _)
  refine (hsorted.and hnodup).imp_of_mem fun {a b} ha hb hab => ?_
  -- Equal keys would mean one fqn, and so one row.
  refine lt_of_le_of_ne ((hle a b).mp hab.1) fun heq => hab.2 ?_
  have hid := h.fqn_unique a (mem_listNodes ha) b (mem_listNodes hb) (congrArg SortKey.fqn heq)
  exact List.inj_on_of_nodup_map h.ids_nodup (mem_listNodes ha) (mem_listNodes hb) hid

/-- The nodes of a graph that `find_symbol` pages through. -/
def symbolsFound (engine : QueryEngine) (pattern : String) (mode : MatchMode) (ignoreCase : Bool)
    (filter : Filter) (db : Db) : List Node :=
  (db.listNodes filter.language).filter fun n =>
    mode.matches engine.fuzzyEq pattern ignoreCase n.fqn && filter.matches n

section FindSymbol

variable (engine : QueryEngine) (pattern : String) (mode : MatchMode) (ignoreCase : Bool)
  (filter : Filter)

/-- `find_symbol` returns a page of them. -/
theorem run_findSymbol (S : Servers) (w : World) (page : Page) :
    (engine.findSymbol pattern mode ignoreCase false filter page).run S w = (.ok
      ⟨(paginate (symbolsFound engine pattern mode ignoreCase filter w.db) page .fromNode).1.map
        .fromNode, [],
        (paginate (symbolsFound engine pattern mode ignoreCase filter w.db) page .fromNode).2⟩,
      w) := by
  unfold QueryEngine.findSymbol
  rw [run_bind_of_ok S w _ (run_listNodes S w filter.language)]
  rfl

/-- A walk through `find_symbol`, each request over the graph as it is then: the nodes come in the
    order of their keys, none twice, and at the end none is missing that was found in every
    graph. -/
theorem findSymbol_pages {E : CursorCodec} (limit : Nat) {dbs : Nat → Db}
    (hwf : ∀ i, (dbs i).WF)
    (hE : ∀ i, ∀ n ∈ (dbs i).nodes, E.Lossless (SortKey.fromNode n).payload) (n : Nat) :
    ∃ w, walk E .fromNode limit
        (fun i => symbolsFound engine pattern mode ignoreCase filter (dbs i)) n = .ok w ∧
      w.returned.Pairwise (fun a b => SortKey.fromNode a < SortKey.fromNode b) ∧
      (w.request = none → ∀ x,
        (∀ i < n, x ∈ symbolsFound engine pattern mode ignoreCase filter (dbs i)) →
        x ∈ w.returned) := by
  have hsorted : ∀ i, (symbolsFound engine pattern mode ignoreCase filter (dbs i)).Pairwise
      fun a b => SortKey.fromNode a < SortKey.fromNode b :=
    fun i => (listNodes_sorted (hwf i) filter.language).sublist List.filter_sublist
  obtain ⟨w, hw, hinv⟩ := walk_inv hsorted
    (fun i x hx => hE i x (mem_listNodes (List.mem_filter.mp hx).1)) n
  exact ⟨w, hw, hinv.sorted, hinv.ended⟩

end FindSymbol

end Semnav.Query
