import Neutralino.Server.Lookups
import Mathlib.Data.List.Nodup

/-!
Which mount a path is served from: the mount loop of `getAsset`.

* `Covers`: a mounted path covers a path name on a component boundary.
* `Routed`: the place of the longest mounted path that covers, or the resources.
* `find?_prefix_shortest`: the loop takes the shortest mounted path that begins the
  path name as a text, since they stand in their order.
* `routed_iff`: **when a path is routed to the longest mount that covers it**.
-/

namespace Neutralino.router

/-- A mounted path covers a path name: it is the path name, or begins it on a
component boundary. -/
def Covers (mountedPath pathname : Str) : Prop :=
  pathname = mountedPath ∨ mountedPath ++ ['/'] <+: pathname ∨
    mountedPath.getLast? = some '/' ∧ mountedPath <+: pathname

/-- The place a path is to be served from, with its name below the document root:
the rest of the name below the target of the longest mounted path that covers
it, or the resources where none does. -/
inductive Routed (mounts : MountTable) (pathname path : Str) : Lookup → Prop
  | mounted {m : Str × Str} :
      m ∈ mounts.entries → Covers m.1 pathname →
        (∀ m' ∈ mounts.entries, Covers m'.1 pathname → m'.1.length ≤ m.1.length) →
          Routed mounts pathname path (.mounted m.2 (pathname.drop m.1.length))
  | resource :
      (∀ m ∈ mounts.entries, ¬ Covers m.1 pathname) → Routed mounts pathname path (.resource path)

/-- The condition: no mounted path begins the path name as a text, or the shortest
one that does covers it, and no other covers it. -/
def UniqueMount (mounts : MountTable) (pathname : Str) : Prop :=
  (∀ m ∈ mounts.entries, ¬ m.1 <+: pathname) ∨
    ∃ m ∈ mounts.entries, Covers m.1 pathname ∧ ∀ m' ∈ mounts.entries, m'.1 <+: pathname →
      m.1.length ≤ m'.1.length ∧ (Covers m'.1 pathname → m' = m)

section Prefixes

variable {mounts : MountTable} {pathname : Str} {m m' : Str × Str}

lemma Covers.isPrefix {mountedPath : Str} (h : Covers mountedPath pathname) :
    mountedPath <+: pathname := by
  rcases h with rfl | h | h
  · exact List.prefix_refl _
  · exact (List.prefix_append _ _).trans h
  · exact h.2

/-- A text stands before those that it begins. -/
lemma lt_of_prefix {u v : Str} (h : u <+: v) (hne : u ≠ v) : u < v := by
  induction u generalizing v with
  | nil =>
      obtain ⟨c, v, rfl⟩ := List.exists_cons_of_ne_nil hne.symm
      exact List.nil_lt_cons c v
  | cons c u ih =>
      obtain ⟨v, rfl⟩ := h
      refine List.cons_lt_cons_self.mpr (ih (List.prefix_append u v) ?_)
      exact fun heq => hne (congrArg (c :: ·) heq)

/-- **The loop takes the shortest** mounted path that begins the path name. -/
lemma find?_prefix_shortest
    (h : mounts.entries.find? (fun m => m.1.isPrefixOf pathname) = some m)
    (hm' : m' ∈ mounts.entries) (hstart : m'.1 <+: pathname) : m.1.length ≤ m'.1.length := by
  obtain ⟨hm, before, after, hentries, hbefore⟩ := List.find?_eq_some_iff_append.mp h
  have hsorted := mounts.sorted
  rw [hentries] at hm' hsorted
  by_contra hlt
  have hshort : m'.1 <+: m.1 :=
    List.prefix_of_prefix_length_le hstart (List.isPrefixOf_iff_prefix.mp hm) (by omega)
  have hbelow : m'.1 < m.1 := lt_of_prefix hshort fun heq => hlt (by rw [heq])
  rcases List.mem_append.mp hm' with hm' | hm'
  · have hnot := hbefore m' hm'
    rw [List.isPrefixOf_iff_prefix.mpr hstart] at hnot
    cases hnot
  · rcases List.mem_cons.mp hm' with rfl | hm'
    · exact hlt (le_refl _)
    · have habove := (List.pairwise_cons.mp (List.pairwise_append.mp hsorted).2.1).1 m' hm'
      exact lt_asymm hbelow habove

/-- Two mounted paths of one length that begin a path name are one entry. -/
lemma eq_of_length_eq (hm : m ∈ mounts.entries) (hm' : m' ∈ mounts.entries)
    (hstart : m.1 <+: pathname) (hstart' : m'.1 <+: pathname) (h : m.1.length = m'.1.length) :
    m = m' := by
  have hnodup : (mounts.entries.map Prod.fst).Nodup :=
    (List.pairwise_map.mpr mounts.sorted).imp fun hlt => hlt.ne
  refine List.inj_on_of_nodup_map hnodup hm hm' ?_
  exact (List.prefix_of_prefix_length_le hstart hstart' h.le).eq_of_length h

end Prefixes

section Routing

variable {options : Json} {mounts : MountTable} {root pathname : Str}

/-- What the loop does with a path below the document root. -/
lemma lookupOf_append (hroot : neuserver.getDocumentRoot options = .ok root) :
    lookupOf options mounts (root ++ pathname) =
      match mounts.entries.find? fun m => m.1.isPrefixOf pathname with
      | some m => .ok (.mounted m.2 (pathname.drop m.1.length))
      | none => .ok (.resource (root ++ pathname)) := by
  rw [lookupOf]
  split_ifs with hnone
  · rw [hnone]
    rfl
  · have hlength : ¬ (root ++ pathname).length < root.length := by simp
    rw [hroot, ok_bind, if_neg hlength, List.drop_left]
    dsimp only
    cases mounts.entries.find? fun m => m.1.isPrefixOf pathname with
    | none => rfl
    | some m => rfl

/-- The entry of a place below a mount. -/
lemma mem_of_routed {target rest path : Str} (h : Routed mounts pathname path (.mounted target rest)) :
    ∃ m ∈ mounts.entries, m.2 = target ∧ pathname.drop m.1.length = rest ∧ Covers m.1 pathname ∧
      ∀ m' ∈ mounts.entries, Covers m'.1 pathname → m'.1.length ≤ m.1.length := by
  cases h with
  | mounted hm hcovers hlongest => exact ⟨_, hm, rfl, rfl, hcovers, hlongest⟩

/-- The loop finds the place of a path name exactly under the condition. -/
lemma routed_lookupOf_iff (hroot : neuserver.getDocumentRoot options = .ok root) :
    (∃ lookup, lookupOf options mounts (root ++ pathname) = .ok lookup ∧
      Routed mounts pathname (root ++ pathname) lookup) ↔ UniqueMount mounts pathname := by
  rw [lookupOf_append hroot]
  cases hfind : mounts.entries.find? fun m => m.1.isPrefixOf pathname with
  | none =>
      have hnone : ∀ m ∈ mounts.entries, ¬ m.1 <+: pathname := by
        intro m hm hstart
        exact List.find?_eq_none.mp hfind m hm (List.isPrefixOf_iff_prefix.mpr hstart)
      exact iff_of_true ⟨_, rfl, .resource fun m hm hcovers => hnone m hm hcovers.isPrefix⟩
        (.inl hnone)
  | some m =>
      have hm : m ∈ mounts.entries := List.mem_of_find?_eq_some hfind
      have hstart : m.1 <+: pathname := by
        have htest := List.find?_some hfind
        exact List.isPrefixOf_iff_prefix.mp htest
      constructor
      · rintro ⟨lookup, hlookup, hrouted⟩
        obtain rfl := Except.ok.inj hlookup
        obtain ⟨m₀, hm₀, -, hrest, hcovers, hlongest⟩ := mem_of_routed hrouted
        -- the lengths of the two rests tell the two entries apart
        have hlength : m₀.1.length = m.1.length := by
          have hdrop := congrArg List.length hrest
          rw [List.length_drop, List.length_drop] at hdrop
          have := hstart.length_le
          have := hcovers.isPrefix.length_le
          omega
        obtain rfl := eq_of_length_eq hm₀ hm hcovers.isPrefix hstart hlength
        refine .inr ⟨m₀, hm₀, hcovers, fun m' hm' hstart' => ⟨?_, fun hcovers' => ?_⟩⟩
        · exact find?_prefix_shortest hfind hm' hstart'
        · refine eq_of_length_eq hm' hm₀ hstart' hstart ?_
          exact le_antisymm (hlongest m' hm' hcovers') (find?_prefix_shortest hfind hm' hstart')
      · rintro (hnone | ⟨m₀, hm₀, hcovers, hunique⟩)
        · exact absurd hstart (hnone m hm)
        · have hlength : m₀.1.length = m.1.length :=
            le_antisymm (hunique m hm hstart).1
              (find?_prefix_shortest hfind hm₀ hcovers.isPrefix)
          obtain rfl := eq_of_length_eq hm₀ hm hcovers.isPrefix hstart hlength
          refine ⟨_, rfl, .mounted hm₀ hcovers fun m' hm' hcovers' => ?_⟩
          rw [(hunique m' hm' hcovers'.isPrefix).2 hcovers']

/-- **A path is routed to the longest mount that covers it**, by every run of
`getAsset`, exactly if no mounted path begins its name as a text, or the
shortest that does is the only one that covers it. -/
theorem routed_iff {path : Str} (hroot : neuserver.getDocumentRoot options = .ok root)
    (hpage : completed path = some (root ++ pathname)) :
    (∀ site prependData readerOptions fuel, site.options = options → site.mounts = mounts →
      ∃ lookup, (getAsset site prependData readerOptions (fuel + 2) path).lookups.head? = some lookup ∧
        Routed mounts pathname (root ++ pathname) lookup) ↔ UniqueMount mounts pathname := by
  rw [← routed_lookupOf_iff hroot]
  have hlookup : ∃ lookup, lookupOf options mounts (root ++ pathname) = .ok lookup := by
    rw [lookupOf_append hroot]
    cases mounts.entries.find? fun m => m.1.isPrefixOf pathname with
    | none => exact ⟨_, rfl⟩
    | some m => exact ⟨_, rfl⟩
  obtain ⟨lookup, hlookup⟩ := hlookup
  constructor
  · intro h
    obtain ⟨first, hfirst, hrouted⟩ := h (.directory options mounts [] .empty) [] {} 0 rfl rfl
    rw [head_lookups_getAsset _ 0 hpage hlookup] at hfirst
    obtain rfl : lookup = first := Option.some.inj hfirst
    exact ⟨lookup, hlookup, hrouted⟩
  · rintro ⟨lookup', hlookup', hrouted⟩ site prependData readerOptions fuel rfl rfl
    exact ⟨lookup', head_lookups_getAsset site fuel hpage hlookup', hrouted⟩

/-- Mounts of two directories, one inside the other's path. -/
def nestedMounts : MountTable where
  entries := [("/test", "/data"), ("/test/sub", "/other")]
  sorted := by
    refine List.pairwise_cons.mpr ⟨?_, List.pairwise_singleton _ _⟩
    simp only [List.mem_singleton, forall_eq]
    exact lt_of_prefix ⟨"/sub".toList, rfl⟩ (by decide)

/-- A file of the outer mount alone. -/
theorem outer_mount_routed :
    ∃ lookup, (getAsset (.directory .null nestedMounts [] .empty) [] {} 2 "/test/a.txt").lookups.head? =
      some lookup ∧ Routed nestedMounts "/test/a.txt" "/test/a.txt" lookup := by
  have hnot : ¬ "/test/sub".toList <+: "/test/a.txt".toList := by decide
  have hunique : UniqueMount nestedMounts "/test/a.txt" := by
    refine .inr ⟨("/test", "/data"), List.mem_cons_self, .inr (.inl (by decide)), ?_⟩
    refine List.forall_mem_cons.mpr ⟨fun _ => ⟨le_refl _, fun _ => rfl⟩, ?_⟩
    exact List.forall_mem_singleton.mpr fun hstart => absurd hstart hnot
  exact (@routed_iff .null nestedMounts [] "/test/a.txt".toList "/test/a.txt".toList rfl rfl).mpr hunique
    (.directory .null nestedMounts [] .empty) [] {} 0 rfl rfl

/-- A look-alike path is served from the mount. -/
theorem look_alike_mounted :
    ¬ ∀ (options : Json) (mounts : MountTable) (root pathname path : Str),
      neuserver.getDocumentRoot options = .ok root → completed path = some (root ++ pathname) →
        ∀ site prependData readerOptions fuel, site.options = options → site.mounts = mounts →
          ∃ lookup, (getAsset site prependData readerOptions (fuel + 2) path).lookups.head? =
            some lookup ∧ Routed mounts pathname (root ++ pathname) lookup := by
  intro h
  obtain ⟨lookup, hlookup, hrouted⟩ := h .null nestedMounts [] "/testing/a.txt" "/testing/a.txt"
    rfl rfl (.directory .null nestedMounts [] .empty) [] {} 0 rfl rfl
  obtain rfl : Lookup.mounted "/data" "ing/a.txt" = lookup := by
    simpa using (show _ = some (Lookup.mounted "/data" "ing/a.txt") from by decide).symm.trans hlookup
  obtain ⟨m, hm, -, -, hcovers, -⟩ := mem_of_routed hrouted
  have hnot : ∀ m ∈ nestedMounts.entries, ¬ Covers m.1 "/testing/a.txt".toList := by
    simp only [nestedMounts, List.forall_mem_cons, Covers]
    decide
  exact hnot m hm hcovers

end Routing

end Neutralino.router
