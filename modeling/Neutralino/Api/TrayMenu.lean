import Neutralino.Api.Inputs
import Neutralino.Library.Runs

/-!
The array of the tray menu: what `setTray` writes into it, and the walk of the tray
library over it.

* `Entry`, `Menus`: an entry, and the array of fifty of them.
* `walk`: the entries that the tray library visits, up to one without a text; past
  the end of the array the walk is undefined.
* `writeItems`, `setMenus`: the loop of `setTray`, and the entry that ends the menu.
* `Tray.Good`: the walk stays in the array and visits the last menu that was accepted.
* `keepsMenu_iff`, `menus_sound_iff`: **when it does**.  Fifty items leave no room for
  the entry that ends the menu, and a refused item leaves those before it behind.
-/

namespace Neutralino.os

open inputs Runs

/-! ### The array -/

/-- An entry of the tray menu, as far as the walk and the handler read it. -/
structure Entry where
  id : Option Str := none
  text : Option Str := none
  disabled : Bool := false
  checked : Bool := false
  deriving DecidableEq

/-- The array `menus`. -/
structure Menus where
  entries : List Entry := List.replicate 50 {}
  length_eq : (entries.length : ℤ) = maxTrayMenuItems := by decide

/-- `menus[i] = entry`. -/
def Menus.set (menus : Menus) (i : ℕ) (entry : Entry) : Menus where
  entries := menus.entries.set i entry
  length_eq := by rw [List.length_set, menus.length_eq]

lemma Menus.length_entries (menus : Menus) : menus.entries.length = 50 := by
  have h := menus.length_eq
  rw [maxTrayMenuItems] at h
  omega

/-- What is read of a copied text: it ends at the first zero. -/
def cStrCopy (s : Str) : Str := s.takeWhile (· ≠ '\x00')

/-- The entry of an item. -/
def entryOf (item : TrayMenu) : Entry where
  id := item.id.map cStrCopy
  text := some (cStrCopy item.text)
  disabled := item.disabled
  checked := item.checked

/-- The walk of `_tray_menu` from an entry on; there is none past the end. -/
def walk : List Entry → Option (List Entry)
  | [] => none
  | entry :: entries => if entry.text = none then some [] else (walk entries).map (entry :: ·)

/-! ### Requests -/

/-- The loop of `setTray` from index `i` on, and how it ends. -/
def writeItems : ℕ → List Json → Menus → Except Fault Unit × Menus
  | _, [], menus => (.ok (), menus)
  | i, menuItem :: menuItems, menus =>
      match trayItem menuItem with
      | .error fault => (.error fault, menus)
      | .ok item => writeItems (i + 1) menuItems (menus.set i (entryOf item))

/-- `menuCount` before it bounds the loop: an `int` may be negative. -/
def countOf (menuItems : Json) : ℤ := min (Int.bmod menuItems.size (2 ^ 32)) maxTrayMenuItems

/-- The items that the loop looks at. -/
def reached (menuItems : Json) : List Json := menuItems.elements.take (countOf menuItems).toNat

/-- The entry that ends a menu of so many items; a negative index is undefined. -/
def endMenu (menuCount : ℤ) (menus : Menus) : Except Fault Unit × Menus :=
  if menuCount < maxTrayMenuItems then
    if menuCount < 0 then (.error .undefinedBehaviour, menus)
    else (.ok (), menus.set menuCount.toNat {})
  else (.ok (), menus)

/-- The loop over items, and what follows it. -/
def writeMenu (menuCount : ℤ) (items : List Json) (menus : Menus) : Except Fault Unit × Menus :=
  let (ended, menus) := writeItems 0 items menus
  match ended with
  | .error fault => (.error fault, menus)
  | .ok _ => endMenu menuCount menus

/-- What `setTray` does with `menuItems`. -/
def setMenus (menuItems : Json) (menus : Menus) : Except Fault Unit × Menus :=
  writeMenu (countOf menuItems) (reached menuItems) menus

/-- The array, the last `menuItems` that were accepted, and whether something
undefined has happened. -/
structure Tray where
  menus : Menus := {}
  accepted : Option Json := none
  undefined : Bool := false

/-- The field `menuItems` of a request, where it has one. -/
def menuItemsOf (input : Json) : Option Json :=
  match helpers.hasField input "menuItems" with
  | .ok true => (input.indexConst "menuItems").toOption
  | _ => none

/-- What becomes of the menu: it is accepted, or something was refused on the way. -/
def Tray.after (s : Tray) (menuItems : Json) : Except Fault Unit × Menus → Tray
  | (.ok _, menus) => { s with menus := menus, accepted := some menuItems }
  | (.error fault, menus) => { s with menus := menus, undefined := s.undefined || !fault.isException }

/-- `setTray`, as far as it changes the menu.  What follows, the icon and the update,
leaves the array as it is. -/
def setTray (input : Json) (s : Tray) : Tray :=
  match menuItemsOf input with
  | none => s
  | some menuItems => s.after menuItems (setMenus menuItems s.menus)

/-! ### The property -/

/-- What the array can hold besides the entry that ends the menu. -/
def room : ℕ := 49

/-- The menu that was accepted, as far as there is room for it. -/
def shownOf : Option Json → Except Fault (List TrayMenu)
  | none => .ok []
  | some menuItems => (menuItems.elements.take room).mapM trayItem

/-- Nothing undefined happened, the walk stays in the array, and it visits the items
of the last menu that was accepted: a request that fails leaves the menu before. -/
def Tray.Good (s : Tray) : Prop :=
  s.undefined = false ∧ ∃ items, shownOf s.accepted = .ok items ∧
    walk s.menus.entries = some (items.map entryOf)

lemma Tray.good_mk {menus : Menus} {accepted : Option Json} {undefined : Bool} :
    (Tray.mk menus accepted undefined).Good ↔ undefined = false ∧
      ∃ items, shownOf accepted = .ok items ∧ walk menus.entries = some (items.map entryOf) :=
  Iff.rfl

/-- The items up to the first that is refused, and how the items end. -/
def itemsUpTo : List Json → List TrayMenu × Except Fault Unit
  | [] => ([], .ok ())
  | menuItem :: menuItems =>
      match trayItem menuItem with
      | .error fault => ([], .error fault)
      | .ok item => (item :: (itemsUpTo menuItems).1, (itemsUpTo menuItems).2)

/-- The condition on a request that has `menuItems`: all items that are looked at are
sound and there are as many as there is room for; or one is refused by an exception,
and those before it are the beginning of the present menu. -/
def KeepsMenu (s : Tray) (input : Json) : Prop :=
  ∀ menuItems ∈ menuItemsOf input,
    match itemsUpTo (reached menuItems) with
    | (_, .ok _) => countOf menuItems = min menuItems.size room
    | (items, .error fault) => fault.isException = true ∧
        ∃ present ∈ walk s.menus.entries, items.map entryOf <+: present

/-! ### The walk -/

section Walk

variable {entries rest : List Entry}

lemma walk_items (items : List TrayMenu) (rest : List Entry) :
    walk (items.map entryOf ++ rest) = (walk rest).map (items.map entryOf ++ ·) := by
  induction items with
  | nil => simp
  | cons item items ih =>
      rw [List.map_cons, List.cons_append, walk, if_neg (by simp [entryOf]), ih, Option.map_map]
      rfl

/-- What is visited stands at the beginning, and what follows ends the walk. -/
lemma walk_eq_some {visited : List Entry} (h : walk entries = some visited) :
    ∃ rest, entries = visited ++ rest ∧ walk rest = some [] := by
  induction entries generalizing visited with
  | nil => cases h
  | cons entry entries ih =>
      rw [walk] at h
      split_ifs at h with htext
      · obtain rfl := Option.some.inj h
        exact ⟨_, rfl, by rw [walk, if_pos htext]⟩
      · obtain ⟨visited', hwalk, rfl⟩ := Option.map_eq_some_iff.mp h
        obtain ⟨rest, rfl, hrest⟩ := ih hwalk
        exact ⟨rest, rfl, hrest⟩

lemma walk_menu (items : List TrayMenu) (rest : List Entry) :
    walk (items.map entryOf ++ {} :: rest) = some (items.map entryOf) := by
  rw [walk_items, walk, if_pos rfl, Option.map_some, List.append_nil]

end Walk

/-! ### The loop -/

section Loop

variable {menus : Menus} {menuItems : List Json}

/-- The items are sound where none of them is refused. -/
lemma itemsUpTo_ok_iff {items : List TrayMenu} :
    itemsUpTo menuItems = (items, .ok ()) ↔ menuItems.mapM trayItem = .ok items := by
  induction menuItems generalizing items with
  | nil => simp [itemsUpTo, pure, Except.pure]
  | cons menuItem menuItems ih =>
      rw [itemsUpTo, List.mapM_cons]
      cases trayItem menuItem with
      | error fault => simp
      | ok item =>
          rw [ok_bind, bind_eq_ok]
          constructor
          · intro h
            obtain ⟨rfl, hend⟩ := Prod.mk.inj h
            exact ⟨_, ih.mp (Prod.ext rfl hend), rfl⟩
          · rintro ⟨rest, hrest, hitems⟩
            obtain rfl := Except.ok.inj hitems
            rw [ih.mpr hrest]

lemma length_of_mapM {items : List TrayMenu} (h : menuItems.mapM trayItem = .ok items) :
    items.length = menuItems.length := by
  induction menuItems generalizing items with
  | nil =>
      obtain rfl : [] = items := Except.ok.inj h
      rfl
  | cons menuItem menuItems ih =>
      rw [List.mapM_cons] at h
      obtain ⟨item, -, h⟩ := bind_eq_ok.mp h
      obtain ⟨rest, hrest, h⟩ := bind_eq_ok.mp h
      obtain rfl := Except.ok.inj h
      rw [List.length_cons, List.length_cons, ih hrest]

/-- One entry is written, those before it are kept. -/
lemma Menus.take_set {i : ℕ} (hi : i < 50) (entry : Entry) :
    (menus.set i entry).entries.take (i + 1) = menus.entries.take i ++ [entry] := by
  have hlt : i < menus.entries.length := by rwa [menus.length_entries]
  show (menus.entries.set i entry).take (i + 1) = _
  rw [List.set_eq_take_append_cons_drop, if_pos hlt, List.take_append, List.length_take,
    Nat.min_eq_left hlt.le, Nat.add_sub_cancel_left, List.take_take, Nat.min_eq_right (Nat.le_succ i)]
  rfl

/-- So are those behind it. -/
lemma Menus.drop_set {i k : ℕ} (hi : i < k) (entry : Entry) :
    (menus.set i entry).entries.drop k = menus.entries.drop k :=
  List.drop_set_of_lt hi

/-- The entries of the items that are read stand in the array, up to the first that is
refused; the rest of it is as before. -/
lemma writeItems_eq (i : ℕ) (menuItems : List Json) (menus : Menus)
    (h : i + menuItems.length ≤ 50) :
    (writeItems i menuItems menus).1 = (itemsUpTo menuItems).2 ∧
      (writeItems i menuItems menus).2.entries =
        menus.entries.take i ++ ((itemsUpTo menuItems).1.map entryOf ++
          menus.entries.drop (i + (itemsUpTo menuItems).1.length)) := by
  induction menuItems generalizing i menus with
  | nil => simp [writeItems, itemsUpTo]
  | cons menuItem menuItems ih =>
      rw [List.length_cons] at h
      rw [writeItems, itemsUpTo]
      cases trayItem menuItem with
      | error fault => simp
      | ok item =>
          obtain ⟨hended, hentries⟩ := ih (i + 1) (menus.set i (entryOf item)) (by omega)
          refine ⟨hended, ?_⟩
          rw [hentries, Menus.take_set (by omega), Menus.drop_set (by omega), List.length_cons,
            List.map_cons, List.append_assoc, List.singleton_append, List.cons_append,
            Nat.add_right_comm, Nat.add_assoc]

end Loop

/-! ### The menu after a request -/

section Menu

variable {s : Tray} {input menuItems : Json} {items : List TrayMenu} {fault : Fault}

lemma length_elements (j : Json) : j.elements.length = j.size := by
  cases j <;> simp [Json.elements, Json.size]

/-- No more items are counted than there are, nor than the array has entries. -/
lemma countOf_le (menuItems : Json) :
    (countOf menuItems).toNat ≤ menuItems.size ∧ (countOf menuItems).toNat ≤ 50 := by
  have hbmod : Int.bmod menuItems.size (2 ^ 32) ≤ menuItems.size := by
    rw [Int.bmod_def]
    omega
  rw [countOf, maxTrayMenuItems]
  omega

attribute [irreducible] countOf

lemma length_reached (menuItems : Json) :
    (reached menuItems).length = (countOf menuItems).toNat := by
  rw [reached, List.length_take, length_elements, Nat.min_eq_left (countOf_le menuItems).1]

/-- Where an item is refused, those before it are written. -/
lemma writeMenu_of_refused (menuCount : ℤ) {looked : List Json} (hlooked : looked.length ≤ 50)
    (h : itemsUpTo looked = (items, .error fault)) (menus : Menus) :
    (writeMenu menuCount looked menus).1 = .error fault ∧
      (writeMenu menuCount looked menus).2.entries =
        items.map entryOf ++ menus.entries.drop items.length := by
  obtain ⟨hended, hentries⟩ := writeItems_eq 0 looked menus (by omega)
  rw [h] at hended hentries
  simp only [writeMenu, hended, true_and]
  simpa using hentries

/-- Where none is refused, the menu is written and ended. -/
lemma writeMenu_of_accepted (menuCount : ℤ) {looked : List Json} (hlooked : looked.length ≤ 50)
    (h : itemsUpTo looked = (items, .ok ())) (menus : Menus) :
    ∃ written : Menus, writeMenu menuCount looked menus = endMenu menuCount written ∧
      written.entries = items.map entryOf ++ menus.entries.drop items.length := by
  obtain ⟨hended, hentries⟩ := writeItems_eq 0 looked menus (by omega)
  rw [h] at hended hentries
  refine ⟨_, ?_, by simpa using hentries⟩
  simp only [writeMenu, hended]

/-- A menu that is ended shows its items; without an entry left the walk leaves the
array. -/
lemma walk_endMenu {menuCount : ℤ} (hcount : 0 ≤ menuCount) (hle : menuCount ≤ 50)
    (hitems : (items.length : ℤ) = menuCount) {menus written : Menus}
    (h : written.entries = items.map entryOf ++ menus.entries.drop items.length) :
    (endMenu menuCount written).1 = .ok () ∧
      walk (endMenu menuCount written).2.entries =
        if menuCount < 50 then some (items.map entryOf) else none := by
  obtain rfl := hitems
  have hmax : maxTrayMenuItems = 50 := rfl
  rw [endMenu, hmax]
  by_cases hlt : (items.length : ℤ) < 50
  · rw [if_pos hlt, if_neg (by omega), if_pos hlt, Int.toNat_natCast]
    refine ⟨rfl, ?_⟩
    have htake : written.entries.take items.length = items.map entryOf := by
      rw [h, List.take_append, List.take_of_length_le (by simp), List.length_map, Nat.sub_self,
        List.take_zero, List.append_nil]
    have hset : (written.set items.length {}).entries =
        items.map entryOf ++ {} :: written.entries.drop (items.length + 1) := by
      rw [← htake]
      show written.entries.set items.length {} = _
      rw [List.set_eq_take_append_cons_drop, if_pos (by rw [written.length_entries]; omega)]
    rw [hset, walk_menu]
  · rw [if_neg hlt, if_neg hlt]
    refine ⟨rfl, ?_⟩
    have hfull : menus.entries.drop items.length = [] :=
      List.drop_eq_nil_of_le (by rw [menus.length_entries]; omega)
    rw [h, hfull, walk_items, walk, Option.map_none]

/-! ### The walk after a request -/

lemma setTray_of_none (h : menuItemsOf input = none) : setTray input s = s := by
  rw [setTray, h]

lemma setTray_of_some (h : menuItemsOf input = some menuItems) :
    setTray input s =
      s.after menuItems (writeMenu (countOf menuItems) (reached menuItems) s.menus) := by
  rw [setTray, h]
  rfl

lemma Tray.after_error {result : Except Fault Unit × Menus} (h : result.1 = .error fault) :
    s.after menuItems result =
      { s with menus := result.2, undefined := s.undefined || !fault.isException } := by
  obtain ⟨ended, menus⟩ := result
  obtain rfl : ended = .error fault := h
  rfl

lemma Tray.after_ok {result : Except Fault Unit × Menus} (h : result.1 = .ok ()) :
    s.after menuItems result = { s with menus := result.2, accepted := some menuItems } := by
  obtain ⟨ended, menus⟩ := result
  obtain rfl : ended = .ok () := h
  rfl

lemma length_reached_le (menuItems : Json) : (reached menuItems).length ≤ 50 :=
  (length_reached menuItems).trans_le (countOf_le menuItems).2

/-- A menu that is refused keeps the property if what was written of it was there. -/
lemma good_of_refused (hmenu : menuItemsOf input = some menuItems) (hs : s.Good)
    (h : itemsUpTo (reached menuItems) = (items, .error fault)) :
    (setTray input s).Good ↔ fault.isException = true ∧
      ∃ present ∈ walk s.menus.entries, items.map entryOf <+: present := by
  obtain ⟨hundefined, shown, hshown, hwalk⟩ := hs
  obtain ⟨hended, hentries⟩ :=
    writeMenu_of_refused (countOf menuItems) (length_reached_le menuItems) h s.menus
  rw [setTray_of_some hmenu]
  generalize writeMenu (countOf menuItems) (reached menuItems) s.menus = result at hended hentries ⊢
  rw [Tray.after_error hended, Tray.good_mk, hundefined, Bool.false_or, Bool.not_eq_false']
  refine and_congr_right fun _ => ?_
  constructor
  · rintro ⟨shown', hshown', hwalk'⟩
    obtain rfl : shown' = shown := Except.ok.inj (hshown'.symm.trans hshown)
    refine ⟨_, hwalk, ?_⟩
    rw [hentries, walk_items] at hwalk'
    obtain ⟨visited, -, hvisited⟩ := Option.map_eq_some_iff.mp hwalk'
    exact ⟨visited, hvisited⟩
  · rintro ⟨present, hpresent, visited, hvisited⟩
    obtain rfl : present = shown.map entryOf := Option.some.inj (hpresent.symm.trans hwalk)
    refine ⟨shown, hshown, ?_⟩
    -- the entries behind those that were written are the rest of the present menu
    obtain ⟨rest, hrest, hend⟩ := walk_eq_some hwalk
    have hdrop : s.menus.entries.drop items.length = visited ++ rest := by
      rw [hrest, ← hvisited, List.append_assoc, ← List.length_map (f := entryOf), List.drop_left]
    rw [hentries, hdrop, ← List.append_assoc, hvisited, walk_items, hend, Option.map_some,
      List.append_nil]

/-- The items that are shown are those that are counted where these are as many as
there is room for. -/
lemma shown_iff (h : (reached menuItems).mapM trayItem = .ok items) (hcount : 0 ≤ countOf menuItems) :
    (∃ shown, shownOf (some menuItems) = .ok shown ∧ items.map entryOf = shown.map entryOf) ↔
      countOf menuItems = min menuItems.size room := by
  have hlength := (length_of_mapM h).trans (length_reached menuItems)
  constructor
  · rintro ⟨shown, hshown, hsame⟩
    have hroom := length_of_mapM (show (menuItems.elements.take room).mapM trayItem = .ok shown from hshown)
    have hsame := congrArg List.length hsame
    rw [List.length_map, List.length_map] at hsame
    rw [List.length_take, length_elements] at hroom
    omega
  · intro hfits
    have hreached : reached menuItems = menuItems.elements.take room := by
      rw [reached, List.take_eq_take_iff, length_elements]
      omega
    rw [hreached] at h
    exact ⟨items, h, rfl⟩

/-- A menu of which no item is refused keeps the property if it fits. -/
lemma good_of_accepted (hmenu : menuItemsOf input = some menuItems) (hs : s.Good)
    (h : itemsUpTo (reached menuItems) = (items, .ok ())) :
    (setTray input s).Good ↔ countOf menuItems = min menuItems.size room := by
  obtain ⟨written, hset, hwritten⟩ :=
    writeMenu_of_accepted (countOf menuItems) (length_reached_le menuItems) h s.menus
  have hmapM : (reached menuItems).mapM trayItem = .ok items := itemsUpTo_ok_iff.mp h
  have hlength := (length_of_mapM hmapM).trans (length_reached menuItems)
  have hle := (countOf_le menuItems).2
  rw [setTray_of_some hmenu, hset]
  rcases lt_or_ge (countOf menuItems) 0 with hneg | hcount
  · -- the entry that ends the menu has a negative index
    have hmax : (0 : ℤ) < maxTrayMenuItems := by decide
    have hend : endMenu (countOf menuItems) written = (.error .undefinedBehaviour, written) := by
      rw [endMenu, if_pos (hneg.trans hmax), if_pos hneg]
    rw [hend, Tray.after_error rfl, Tray.good_mk]
    refine iff_of_false (fun hgood => ?_) (by omega)
    have hundefined := hgood.1
    rw [Fault.isException, Bool.not_false, Bool.or_true] at hundefined
    cases hundefined
  · obtain ⟨hended, hwalk⟩ := walk_endMenu hcount (by omega) (by omega) hwritten
    rw [Tray.after_ok hended, Tray.good_mk, hwalk, and_iff_right hs.1]
    by_cases hlt : countOf menuItems < 50
    · rw [if_pos hlt, ← shown_iff hmapM hcount]
      simp only [Option.some.injEq]
    · rw [if_neg hlt]
      refine iff_of_false (by simp) ?_
      have hroom : (room : ℤ) = 49 := rfl
      omega

/-- **A request keeps the property** exactly under its condition. -/
theorem keepsMenu_iff (hs : s.Good) : (setTray input s).Good ↔ KeepsMenu s input := by
  rw [KeepsMenu]
  cases hmenu : menuItemsOf input with
  | none =>
      rw [setTray_of_none hmenu]
      simpa using hs
  | some menuItems =>
      cases hitems : itemsUpTo (reached menuItems) with
      | mk items ended =>
          cases ended with
          | error fault => simpa [hitems] using good_of_refused hmenu hs hitems
          | ok => simpa [hitems] using good_of_accepted hmenu hs hitems

end Menu

/-! ### Sequences of requests -/

/-- The states that requests lead to, one after another. -/
def served (inputs : List Json) : List (Json × Tray) :=
  traceOf (fun s input => some (setTray input s)) ({} : Tray) inputs

lemma good_initial : ({} : Tray).Good := ⟨rfl, [], rfl, rfl⟩

/-- **The walk shows the last menu that was accepted** after each of a sequence of
requests, exactly if each meets the condition. -/
theorem menus_sound_iff (inputs : List Json) :
    (∀ x ∈ served inputs, x.2.Good) ↔ Along KeepsMenu ({} : Tray) (served inputs) := by
  refine Run.good_iff (I := fun _ => True) (fun _ _ _ _ _ => trivial) (fun s input t _ hs hst => ?_)
    (run_traceOf _ _ inputs) trivial good_initial
  obtain rfl := Option.some.inj hst
  exact keepsMenu_iff hs

/-- An item with a text. -/
def textItem : Json := .obj [("text".toList, .str "a".toList)]

/-- A request of fifty such items. -/
def fiftyItems : Json := .obj [("menuItems".toList, .arr (List.replicate 50 textItem))]

lemma itemsUpTo_replicate (n : ℕ) :
    (itemsUpTo (List.replicate n textItem)).2 = .ok () := by
  have hitem : trayItem textItem = .ok { id := none, text := "a".toList, disabled := false, checked := false } :=
    rfl
  induction n with
  | zero => rfl
  | succ n ih => rw [List.replicate_succ, itemsUpTo, hitem, ih]

/-- A menu of fifty items has no end in the array. -/
theorem fifty_items_overrun :
    ¬ ∀ inputs : List Json, ∀ x ∈ served inputs, x.2.Good := by
  intro h
  have hgood := h [fiftyItems] (fiftyItems, setTray fiftyItems {}) List.mem_cons_self
  have hkeeps := (keepsMenu_iff good_initial).mp hgood (.arr (List.replicate 50 textItem)) rfl
  have hcount : countOf (.arr (List.replicate 50 textItem)) = 50 := by
    rw [countOf]
    decide
  have hreached : reached (.arr (List.replicate 50 textItem)) = List.replicate 50 textItem := by
    rw [reached, hcount]
    rfl
  have hended := itemsUpTo_replicate 50
  rw [hreached] at hkeeps
  generalize itemsUpTo (List.replicate 50 textItem) = result at hended hkeeps
  obtain ⟨items, ended⟩ := result
  obtain rfl : ended = .ok () := hended
  have hfits : countOf (.arr (List.replicate 50 textItem)) =
      min (Json.size (.arr (List.replicate 50 textItem))) room := hkeeps
  rw [hcount] at hfits
  exact absurd hfits (by decide)

end Neutralino.os
