import Neutralino.Base.Errors

/-!
`computer::getNetworkInterfaces` on Linux, FreeBSD and macOS.

* `IfAddrs`: a record of the list that `getifaddrs` returns.
* `collect`, `patchMacs`: the two loops over that list; the second one looks at
  the address of every record.
* `find?_collect`, `patchMacs_eq`: what each loop leaves under a name.
* `reported_iff`: **which lists are reported as they are**: those without a null
  address in which the last hardware address belongs to every name that has
  entries.
-/

namespace Neutralino.computer

/-! ### Records and entries -/

/-- A socket address: of `AF_INET`, of `AF_INET6`, of the link layer with the
length of the hardware address and its bytes, or of another family. -/
inductive SockAddr where
  | inet (sinAddr : List UInt8)
  | inet6 (sin6Addr : List UInt8)
  | link (halen : ℕ) (lladdr : ℕ → UInt8)
  | other

/-- `struct ifaddrs`; the address may be null. -/
structure IfAddrs where
  ifaName : Str
  ifaFlags : ℕ
  ifaAddr : Option SockAddr

/-- `interfaceInfo`; the hardware address is absent until it is patched in. -/
structure InterfaceInfo where
  isInternal : Bool
  address : Str
  family : Str
  mac : Option Str := none

/-- The interfaces reported so far, by their names. -/
abbrev Interfaces := List (Str × List InterfaceInfo)

/-- `IFF_LOOPBACK` in the flags. -/
def IfAddrs.isLoopback (ifa : IfAddrs) : Bool := ifa.ifaFlags &&& 8 ≠ 0

/-- Two hexadecimal digits of a byte. -/
def hexByte (b : UInt8) : Str := [(b.toNat / 16).digitChar, (b.toNat % 16).digitChar]

/-- `__formatMac`. -/
def formatMac (bytes : ℕ → UInt8) : Str :=
  [':'].intercalate ((List.range 6).map fun i => hexByte (bytes i))

section Loops

variable (inetNtop inetNtop6 : List UInt8 → Str)

/-- The entry made from a record, if its address is one of the two families;
`inetNtop` and `inetNtop6` write the addresses of these. -/
def IfAddrs.info (ifa : IfAddrs) : Option InterfaceInfo :=
  match ifa.ifaAddr with
  | some (.inet sinAddr) =>
      some { isInternal := ifa.isLoopback, address := inetNtop sinAddr, family := "ipv4" }
  | some (.inet6 sin6Addr) =>
      some { isInternal := ifa.isLoopback, address := inetNtop6 sin6Addr, family := "ipv6" }
  | _ => none

/-- The hardware address of a record of the link layer, if it has six bytes. -/
def IfAddrs.mac (ifa : IfAddrs) : Option Str :=
  match ifa.ifaAddr with
  | some (.link halen lladdr) => if halen = 6 then some (formatMac lladdr) else none
  | _ => none

/-- The entries under a name. -/
def entriesOf (interfaces : Interfaces) (name : Str) : List InterfaceInfo :=
  ((interfaces.find? fun i => i.1 = name).map Prod.snd).getD []

/-- The body of the first loop. -/
def collectStep (interfaces : Interfaces) (ifa : IfAddrs) : Interfaces :=
  match ifa.info inetNtop inetNtop6 with
  | some interfaceInfo =>
      insertMember ifa.ifaName (entriesOf interfaces ifa.ifaName ++ [interfaceInfo]) interfaces
  | none => interfaces

/-- The first loop. -/
def collect (ifap : List IfAddrs) : Interfaces := ifap.foldl (collectStep inetNtop inetNtop6) []

/-- `__updateMac`, which looks at no name. -/
def updateMac (interfaces : Interfaces) (_name mac : Str) : Interfaces :=
  interfaces.map fun i => (i.1, i.2.map fun item => { item with mac := some mac })

/-- The body of the second loop; the null address is dereferenced. -/
def patchStep (interfaces : Interfaces) (ifa : IfAddrs) : Except Fault Interfaces :=
  match ifa.ifaAddr with
  | none => .error .undefinedBehaviour
  | some _ =>
      match ifa.mac with
      | some mac => .ok (updateMac interfaces ifa.ifaName mac)
      | none => .ok interfaces

/-- The second loop. -/
def patchMacs (ifap : List IfAddrs) (interfaces : Interfaces) : Except Fault Interfaces :=
  ifap.foldlM patchStep interfaces

/-- An entry as the JSON object that is pushed and patched. -/
def InterfaceInfo.toJson (info : InterfaceInfo) : Json :=
  let object := ((Json.null.set "isInternal" (.bool info.isInternal)).set "address"
    (.str info.address)).set "family" (.str info.family)
  match info.mac with
  | some mac => object.set "mac" (.str mac)
  | none => object

/-- `interfaces` as a JSON object. -/
def interfacesJson (interfaces : Interfaces) : Json :=
  .obj (interfaces.map fun i => (i.1, .arr (i.2.map InterfaceInfo.toJson)))

/-- The two loops, one after the other. -/
def interfacesOf (ifap : List IfAddrs) : Except Fault Interfaces :=
  patchMacs ifap (collect inetNtop inetNtop6 ifap)

/-- `getNetworkInterfaces`; `getifaddrs` may fail to return a list. -/
def getNetworkInterfaces (getifaddrs : Option (List IfAddrs)) : Except Fault Json := do
  match getifaddrs with
  | none => return errors.errorOutput (errors.makeErrorPayload .NE_CO_UNLTONI [])
  | some ifap =>
      let interfaces ← interfacesOf inetNtop inetNtop6 ifap
      return (Json.null.set "returnValue" (interfacesJson interfaces)).set "success" (.bool true)

/-! ### The first loop -/

/-- The entries made from the records of a name, in the order of the list. -/
def infosFor (ifap : List IfAddrs) (name : Str) : List InterfaceInfo :=
  (ifap.filter fun ifa => ifa.ifaName = name).filterMap (IfAddrs.info inetNtop inetNtop6)

lemma infosFor_concat (ifap : List IfAddrs) (ifa : IfAddrs) (name : Str) :
    infosFor inetNtop inetNtop6 (ifap ++ [ifa]) name =
      infosFor inetNtop inetNtop6 ifap name ++
        if ifa.ifaName = name then (ifa.info inetNtop inetNtop6).toList else [] := by
  rw [infosFor, List.filter_append, List.filterMap_append, infosFor]
  congr 1
  split_ifs with hname
  · cases hinfo : ifa.info inetNtop inetNtop6 <;> simp [hname, hinfo]
  · simp [hname]

/-- **What the first loop leaves under a name**: its entries, and no member where
there are none. -/
lemma find?_collect (ifap : List IfAddrs) (name : Str) :
    (collect inetNtop inetNtop6 ifap).find? (fun i => i.1 = name) =
      if infosFor inetNtop inetNtop6 ifap name = [] then none
      else some (name, infosFor inetNtop inetNtop6 ifap name) := by
  induction ifap using List.reverseRecOn with
  | nil => rfl
  | append_singleton ifap ifa ih =>
      rw [collect, List.foldl_append, List.foldl_cons, List.foldl_nil, ← collect, collectStep,
        infosFor_concat]
      cases hinfo : ifa.info inetNtop inetNtop6 with
      | none => simpa using ih
      | some info =>
          by_cases hname : ifa.ifaName = name
          · have hentries : entriesOf (collect inetNtop inetNtop6 ifap) name =
                infosFor inetNtop inetNtop6 ifap name := by
              rw [entriesOf, ih]
              split_ifs with hnil
              · exact hnil.symm
              · rfl
            simp only [hname, find?_insertMember_self, hentries, if_true, Option.toList_some]
            rw [if_neg (by simp)]
          · simp only [find?_insertMember_of_ne (Ne.symm hname), ih, if_neg hname, List.append_nil]

/-- No entry has a hardware address before the second loop. -/
lemma mac_of_mem_infosFor {ifap : List IfAddrs} {name : Str} {info : InterfaceInfo}
    (h : info ∈ infosFor inetNtop inetNtop6 ifap name) : info.mac = none := by
  obtain ⟨ifa, -, hinfo⟩ := List.mem_filterMap.mp h
  rw [IfAddrs.info] at hinfo
  split at hinfo
  · rw [← Option.some.inj hinfo]
  · rw [← Option.some.inj hinfo]
  · cases hinfo

end Loops

/-! ### The second loop -/

/-- The entries of every name with one hardware address. -/
lemma find?_updateMac (interfaces : Interfaces) (name mac name' : Str) :
    (updateMac interfaces name mac).find? (fun i => i.1 = name') =
      (interfaces.find? fun i => i.1 = name').map fun i =>
        (i.1, i.2.map fun item => { item with mac := some mac }) := by
  rw [updateMac, List.find?_map]
  rfl

/-- The later patch is the one that stays. -/
lemma updateMac_updateMac (interfaces : Interfaces) (name name' mac mac' : Str) :
    updateMac (updateMac interfaces name mac) name' mac' = updateMac interfaces name' mac' := by
  simp [updateMac, Function.comp_def]

/-- The entries as the last hardware address of a list leaves them. -/
def patched (ifap : List IfAddrs) (interfaces : Interfaces) : Interfaces :=
  match (ifap.filterMap IfAddrs.mac).getLast? with
  | some mac => updateMac interfaces [] mac
  | none => interfaces

/-- A null address anywhere is dereferenced. -/
lemma patchMacs_of_null {ifap : List IfAddrs} {ifa : IfAddrs} (hmem : ifa ∈ ifap)
    (hnull : ifa.ifaAddr = none) (interfaces : Interfaces) :
    patchMacs ifap interfaces = .error .undefinedBehaviour := by
  induction ifap generalizing interfaces with
  | nil => cases hmem
  | cons x ifap ih =>
      rw [patchMacs, List.foldlM_cons]
      rcases List.mem_cons.mp hmem with rfl | hmem
      · rw [patchStep, hnull]
        rfl
      · cases hx : patchStep interfaces x with
        | error fault =>
            rw [patchStep] at hx
            split at hx
            · rw [← Except.error.inj hx]
              rfl
            · split at hx <;> cases hx
        | ok interfaces' => exact ih hmem interfaces'

/-- **What the second loop leaves**: the last hardware address in every entry. -/
lemma patchMacs_eq {ifap : List IfAddrs} (h : ∀ ifa ∈ ifap, ifa.ifaAddr ≠ none)
    (interfaces : Interfaces) : patchMacs ifap interfaces = .ok (patched ifap interfaces) := by
  induction ifap using List.reverseRecOn with
  | nil => rfl
  | append_singleton ifap ifa ih =>
      have hprev := ih fun x hx => h x (List.mem_append_left _ hx)
      obtain ⟨addr, haddr⟩ := Option.ne_none_iff_exists'.mp (h ifa (by simp))
      rw [patchMacs, List.foldlM_append, ← patchMacs, hprev, ok_bind, List.foldlM_cons, patchStep,
        haddr, patched, patched, List.filterMap_append]
      cases hmac : ifa.mac with
      | none => simp [hmac]
      | some mac =>
          have hlast : (ifap.filterMap IfAddrs.mac ++ [ifa].filterMap IfAddrs.mac).getLast? =
              some mac := by simp [hmac]
          rw [hlast]
          cases (ifap.filterMap IfAddrs.mac).getLast? with
          | none => rfl
          | some mac' => exact congrArg Except.ok (updateMac_updateMac _ _ _ _ _)

/-! ### The report -/

section Report

variable (inetNtop inetNtop6 : List UInt8 → Str)

/-- The hardware address that is expected of an entry: one of a six-byte record
of the name, and none where the name has no such record. -/
def MacOf (ifap : List IfAddrs) (name : Str) : Option Str → Prop
  | some mac => ∃ ifa ∈ ifap, ifa.ifaName = name ∧ ifa.mac = some mac
  | none => ∀ ifa ∈ ifap, ifa.ifaName = name → ifa.mac = none

/-- What is expected under a name: the entries of its records in their order,
each with a hardware address of the name, and no member where it has none. -/
structure Describes (ifap : List IfAddrs) (interfaces : Interfaces) (name : Str) : Prop where
  absent : infosFor inetNtop inetNtop6 ifap name = [] →
    interfaces.find? (fun i => i.1 = name) = none
  present : infosFor inetNtop inetNtop6 ifap name ≠ [] → ∃ entries,
    interfaces.find? (fun i => i.1 = name) = some (name, entries) ∧
      entries.map (fun item => { item with mac := none }) =
        infosFor inetNtop inetNtop6 ifap name ∧
      ∀ item ∈ entries, MacOf ifap name item.mac

/-- The list is reported as it is: the call answers with the interfaces, and
under every name stands what is expected. -/
def Reported (ifap : List IfAddrs) : Prop :=
  ∃ interfaces, getNetworkInterfaces inetNtop inetNtop6 (some ifap) =
      .ok ((Json.null.set "returnValue" (interfacesJson interfaces)).set "success" (.bool true)) ∧
    interfacesOf inetNtop inetNtop6 ifap = .ok interfaces ∧
    ∀ name, Describes inetNtop inetNtop6 ifap interfaces name

lemma withoutMac_infosFor (ifap : List IfAddrs) (name : Str) :
    (infosFor inetNtop inetNtop6 ifap name).map (fun item => { item with mac := none }) =
      infosFor inetNtop inetNtop6 ifap name := by
  refine (List.map_congr_left fun item hitem => ?_).trans (List.map_id _)
  rw [← mac_of_mem_infosFor inetNtop inetNtop6 hitem]
  rfl

/-- **What both loops leave under a name**: its entries, all of them with the last
hardware address of the list. -/
lemma find?_patched (ifap : List IfAddrs) (name : Str) :
    (patched ifap (collect inetNtop inetNtop6 ifap)).find? (fun i => i.1 = name) =
      if infosFor inetNtop inetNtop6 ifap name = [] then none
      else some (name, (infosFor inetNtop inetNtop6 ifap name).map fun item =>
        { item with mac := (ifap.filterMap IfAddrs.mac).getLast? }) := by
  rw [patched]
  cases (ifap.filterMap IfAddrs.mac).getLast? with
  | none => rw [find?_collect, withoutMac_infosFor]
  | some mac =>
      rw [find?_updateMac, find?_collect]
      split_ifs <;> rfl

lemma infosFor_ne_nil_iff (ifap : List IfAddrs) (name : Str) :
    infosFor inetNtop inetNtop6 ifap name ≠ [] ↔
      ∃ ifa ∈ ifap, (ifa.info inetNtop inetNtop6).isSome ∧ ifa.ifaName = name := by
  simp [infosFor, List.filterMap_eq_nil_iff, Option.isSome_iff_ne_none, and_left_comm, and_comm]

variable {inetNtop inetNtop6} {ifap : List IfAddrs}

lemma Reported.addr (h : Reported inetNtop inetNtop6 ifap) : ∀ ifa ∈ ifap, ifa.ifaAddr ≠ none := by
  obtain ⟨interfaces, -, hloops, -⟩ := h
  intro ifa hifa hnull
  rw [interfacesOf, patchMacs_of_null hifa hnull] at hloops
  cases hloops

/-- The last hardware address is put into the entries of every name. -/
lemma Reported.macOf (h : Reported inetNtop inetNtop6 ifap) {mac : Str}
    (hmac : (ifap.filterMap IfAddrs.mac).getLast? = some mac) {ifa : IfAddrs} (hifa : ifa ∈ ifap)
    (hinfo : (ifa.info inetNtop inetNtop6).isSome) : MacOf ifap ifa.ifaName (some mac) := by
  obtain ⟨interfaces, -, hloops, hdescribes⟩ := id h
  rw [interfacesOf, patchMacs_eq h.addr] at hloops
  obtain rfl := Except.ok.inj hloops
  have hne := (infosFor_ne_nil_iff inetNtop inetNtop6 ifap ifa.ifaName).mpr ⟨ifa, hifa, hinfo, rfl⟩
  obtain ⟨entries, hfind, -, hmacs⟩ := (hdescribes ifa.ifaName).present hne
  rw [find?_patched, if_neg hne, hmac] at hfind
  obtain ⟨info, hinfo⟩ := List.exists_mem_of_ne_nil _ hne
  have hentries := (Prod.mk.inj (Option.some.inj hfind)).2
  exact hmacs { info with mac := some mac } (hentries ▸ List.mem_map_of_mem hinfo)

variable (inetNtop inetNtop6 ifap)

/-- **Which lists are reported as they are**: no address is null, and every name
with an entry has the last hardware address of the list for its own. -/
theorem reported_iff :
    Reported inetNtop inetNtop6 ifap ↔
      (∀ ifa ∈ ifap, ifa.ifaAddr ≠ none) ∧
        ∀ mac ∈ (ifap.filterMap IfAddrs.mac).getLast?, ∀ ifa ∈ ifap,
          (ifa.info inetNtop inetNtop6).isSome → MacOf ifap ifa.ifaName (some mac) := by
  constructor
  · intro h
    exact ⟨h.addr, fun mac hmac ifa hifa hinfo => h.macOf hmac hifa hinfo⟩
  · rintro ⟨haddr, hmacs⟩
    have hloops : interfacesOf inetNtop inetNtop6 ifap =
        .ok (patched ifap (collect inetNtop inetNtop6 ifap)) := patchMacs_eq haddr _
    refine ⟨_, by rw [getNetworkInterfaces, hloops]; rfl, hloops, fun name => ⟨?_, ?_⟩⟩
    · intro hnil
      rw [find?_patched, if_pos hnil]
    · intro hne
      refine ⟨_, by rw [find?_patched, if_neg hne], ?_, fun item hitem => ?_⟩
      · rw [List.map_map]
        exact withoutMac_infosFor inetNtop inetNtop6 ifap name
      · obtain ⟨info, -, rfl⟩ := List.mem_map.mp hitem
        obtain ⟨ifa, hifa, hinfo, rfl⟩ := (infosFor_ne_nil_iff inetNtop inetNtop6 ifap name).mp hne
        show MacOf ifap ifa.ifaName (ifap.filterMap IfAddrs.mac).getLast?
        cases hlast : (ifap.filterMap IfAddrs.mac).getLast? with
        | none =>
            have hnone := List.filterMap_eq_nil_iff.mp (List.getLast?_eq_none_iff.mp hlast)
            exact fun x hx _ => hnone x hx
        | some mac => exact hmacs mac hlast ifa hifa hinfo

/-- The loopback and one Ethernet interface, as Linux lists them. -/
def twoInterfaces : List IfAddrs :=
  [⟨"lo", 73, some (.link 6 fun _ => 0)⟩, ⟨"eth0", 69699, some (.link 6 fun _ => 82)⟩,
    ⟨"lo", 73, some (.inet [127, 0, 0, 1])⟩, ⟨"eth0", 69699, some (.inet [10, 0, 0, 2])⟩]

/-- **The address of the one interface is given to the other**, and a tunnel that
has no address is dereferenced. -/
theorem loopback_has_ethernet_mac :
    ¬ Reported (fun _ => []) (fun _ => []) twoInterfaces ∧
      ¬ Reported (fun _ => []) (fun _ => []) [⟨"tun0", 4305, none⟩] := by
  constructor
  · intro h
    have hlast : (twoInterfaces.filterMap IfAddrs.mac).getLast? =
        some (formatMac fun _ => 82) := rfl
    have hother : twoInterfaces.all fun ifa =>
        ifa.ifaName ≠ "lo".toList || ifa.mac ≠ some (formatMac fun _ => 82) := by decide
    obtain ⟨ifa, hifa, hname, hmac⟩ := h.macOf hlast
      (List.mem_cons_of_mem _ (List.mem_cons_of_mem _ List.mem_cons_self)) rfl
    have hne := List.all_eq_true.mp hother ifa hifa
    rw [hname, hmac] at hne
    exact absurd hne (by decide)
  · intro h
    exact h.addr _ (List.mem_singleton_self _) rfl

end Report

end Neutralino.computer
