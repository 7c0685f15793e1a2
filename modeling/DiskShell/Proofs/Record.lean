import DiskShell.Proofs.Node.Shape
import DiskShell.Record

/-!
Records between documents and trees. A record is read back from its document (`ofJson?_toJson`), a
tidy tree from its record (`toNode_ofNode`), and every tree that is built is tidy. Each level of a
tree is three levels of a document, whether the document is written from the tree
(`depth_toJson_ofNode`) or the tree is read from it (`levels_of_ofJson?`).
-/

namespace DiskShell.Record

/-! ## Writing -/

mutual

theorem isValue_toJson : ∀ r : Record, r.toJson.isValue = true
  | .file name content => rfl
  | .directory name children => by
    have hc := areValues_pairsToJson children
    simpa [toJson, Json.record, Json.ofString, Json.isValue, Json.haveValues] using hc

theorem areValues_pairsToJson : ∀ children : List (String × Record),
    Json.areValues (pairsToJson children) = true
  | [] => rfl
  | (key, r) :: rest => by
    have hr := isValue_toJson r
    have hrest := areValues_pairsToJson rest
    simp [pairsToJson, Json.ofString, Json.areValues, Json.isValue, hr, hrest]

end

/-! ## Reading -/

mutual

theorem ofJson?_toJson : ∀ r : Record, ofJson? r.toJson = some r
  | .file name content => rfl
  | .directory name children => by
    have hc : childrenOf (.array (pairsToJson children)) = children := pairsOf_pairsToJson children
    have hl : lastChildren [(some "type", .ofString "directory"), (some "name", .ofString name),
        (some "children", .array (pairsToJson children))] = children := by
      simp [lastChildren, hc]
    simp only [toJson, Json.record, List.map_cons, List.map_nil, ofJson?, hl]
    rfl

theorem pairsOf_pairsToJson : ∀ children : List (String × Record),
    pairsOf (pairsToJson children) = children
  | [] => rfl
  | (key, r) :: rest => by
    have hp : pair? (.array [.ofString key, r.toJson]) = some (key, r) := by
      rw [Json.ofString, pair?, ofJson?_toJson r]
      rfl
    rw [pairsToJson, pairsOf, hp, pairsOf_pairsToJson rest]

end

/-! ## Trees from records -/

mutual

theorem tidy_toNode : ∀ r : Record, r.toNode.Tidy
  | .file _ _ => trivial
  | .directory _ children => tidy_insertAll children [] Directory.tidy_nil

theorem tidy_insertAll : ∀ (children : List (String × Record)) (d : Directory), d.Tidy →
    (insertAll d children).Tidy
  | [], _, hd => hd
  | (key, r) :: rest, d, hd => by
    rw [insertAll]
    apply tidy_insertAll rest
    split
    · next hkey => exact hd.insert ((Path.isName_iff key).mp hkey) (tidy_toNode r)
    · exact hd

end

/-- Children with distinct keys that are names come as they stand. -/
theorem insertAll_of_distinct {children : List (String × Record)} {d : Directory}
    (hdistinct : (d.names ++ children.map Prod.fst).Nodup)
    (husable : ∀ c ∈ children, Path.IsName c.1) :
    insertAll d children = d ++ children.map fun c => (c.1, c.2.toNode) := by
  induction children generalizing d with
  | nil => simp [insertAll]
  | cons c rest ih =>
    obtain ⟨key, r⟩ := c
    have hkey : Path.isName key = true :=
      (Path.isName_iff key).mpr (husable (key, r) (List.mem_cons_self ..))
    have hfresh : key ∉ d.names := fun hmem =>
      (List.nodup_append.mp hdistinct).2.2 key hmem key (List.mem_cons_self ..) rfl
    have hnext : (Directory.names (d ++ [(key, r.toNode)]) ++ rest.map Prod.fst).Nodup := by
      simpa [Directory.names] using hdistinct
    rw [insertAll, if_pos hkey, Directory.insert_of_not_mem hfresh,
      ih hnext fun c hc => husable c (List.mem_cons_of_mem _ hc)]
    simp

theorem ofEntries_eq_map (d : Directory) :
    ofEntries d = d.map fun e => (e.1, ofNode e.1 e.2) := by
  induction d with
  | nil => rfl
  | cons e rest ih =>
    rw [ofEntries, ih]
    rfl

theorem keys_ofEntries (d : Directory) : (ofEntries d).map Prod.fst = d.names := by
  rw [ofEntries_eq_map, List.map_map]
  rfl

theorem isName_of_mem_ofEntries {d : Directory} (h : Directory.TidyEntries d) :
    ∀ c ∈ ofEntries d, Path.IsName c.1 := by
  intro c hc
  rw [ofEntries_eq_map] at hc
  obtain ⟨e, he, rfl⟩ := List.mem_map.mp hc
  exact ((Directory.tidyEntries_iff d).mp h e he).1

mutual

/-- **A tidy tree is built again from its record.** -/
theorem toNode_ofNode : ∀ (n : Node) (name : String), n.Tidy → (ofNode name n).toNode = n
  | .file _, _, _ => rfl
  | .directory d, name, ⟨hnodup, hentries⟩ => by
    have hkeys : (Directory.names [] ++ (ofEntries d).map Prod.fst).Nodup := by
      rw [keys_ofEntries]
      exact hnodup
    rw [ofNode, toNode, insertAll_of_distinct hkeys (isName_of_mem_ofEntries hentries),
      toNodes_ofEntries d hentries, List.nil_append]

theorem toNodes_ofEntries : ∀ d : Directory, Directory.TidyEntries d →
    (ofEntries d).map (fun c => (c.1, c.2.toNode)) = d
  | [], _ => rfl
  | (name, n) :: rest, ⟨_, hn, hrest⟩ => by
    rw [ofEntries, List.map_cons, toNodes_ofEntries rest hrest, toNode_ofNode n name hn]

end

/-! ## Levels and depth -/

mutual

theorem depth_toJson_ofNode : ∀ (n : Node) (name : String),
    3 * n.levels + 1 ≤ (ofNode name n).toJson.depth ∧
      (ofNode name n).toJson.depth ≤ 3 * n.levels + 2
  | .file _, _ => ⟨Nat.le_refl 1, Nat.le_succ 1⟩
  | .directory d, name => by
    obtain ⟨hle, hge⟩ := depth_pairsToJson_ofEntries d
    simp only [ofNode, toJson, Json.record, Json.ofString, List.map_cons, List.map_nil, Json.depth,
      Json.depthOfMembers, Node.levels]
    omega

theorem depth_pairsToJson_ofEntries : ∀ d : Directory,
    3 * Directory.levels d ≤ Json.depthOfItems (pairsToJson (ofEntries d)) + 1 ∧
      Json.depthOfItems (pairsToJson (ofEntries d)) ≤ 3 * Directory.levels d
  | [] => by decide
  | (name, n) :: rest => by
    obtain ⟨hnle, hnge⟩ := depth_toJson_ofNode n name
    obtain ⟨hle, hge⟩ := depth_pairsToJson_ofEntries rest
    simp only [ofEntries, pairsToJson, Json.ofString, Json.depthOfItems, Json.depth,
      Directory.levels]
    omega

end

theorem levels_insertAll_le {k : Nat} {children : List (String × Record)} {d : Directory}
    (hd : Directory.levels d ≤ k) (hc : ∀ p ∈ children, p.2.toNode.levels + 1 ≤ k) :
    Directory.levels (insertAll d children) ≤ k := by
  induction children generalizing d with
  | nil => exact hd
  | cons p rest ih =>
    obtain ⟨key, r⟩ := p
    have hr : r.toNode.levels + 1 ≤ k := hc (key, r) (List.mem_cons_self ..)
    rw [insertAll]
    refine ih ?_ fun p hp => hc p (List.mem_cons_of_mem _ hp)
    split
    · have hle := Directory.levels_insert_le d key r.toNode
      omega
    · exact hd

mutual

theorem levels_of_ofJson? : ∀ (j : Json) (r : Record), ofJson? j = some r →
    3 * r.toNode.levels + 1 ≤ j.depth
  | .object members, r, h => by
    have hc := levels_of_lastChildren members
    rw [ofJson?] at h
    rw [Json.depth]
    split at h
    · cases h
      simp only [toNode, Node.levels]
      omega
    · cases h
      have hle : Directory.levels (insertAll [] (lastChildren members)) ≤
          Json.depthOfMembers members / 3 := by
        refine levels_insertAll_le (Nat.zero_le _) ?_
        intro p hp
        have hlevel := hc p hp
        omega
      simp only [toNode, Node.levels]
      omega
    · cases h
  | .null, _, h | .bool _, _, h | .number _, _, h | .text _, _, h | .array _, _, h => by cases h

theorem levels_of_lastChildren : ∀ (members : Json.Members), ∀ p ∈ lastChildren members,
    3 * (p.2.toNode.levels + 1) ≤ Json.depthOfMembers members
  | [], p, hp => by cases hp
  | (key, j) :: rest, p, hp => by
    rw [lastChildren] at hp
    rw [Json.depthOfMembers]
    split at hp
    · have hj := levels_of_childrenOf j p hp
      omega
    · have hr := levels_of_lastChildren rest p hp
      omega

theorem levels_of_childrenOf : ∀ (j : Json), ∀ p ∈ childrenOf j,
    3 * (p.2.toNode.levels + 1) ≤ j.depth
  | .array items, p, hp => by
    have hi := levels_of_pairsOf items p hp
    rw [Json.depth]
    omega
  | .null, _, hp | .bool _, _, hp | .number _, _, hp | .text _, _, hp | .object _, _, hp => by
    cases hp

theorem levels_of_pairsOf : ∀ (items : List Json), ∀ p ∈ pairsOf items,
    3 * (p.2.toNode.levels + 1) ≤ Json.depthOfItems items + 1
  | [], p, hp => by cases hp
  | j :: rest, p, hp => by
    rw [pairsOf] at hp
    rw [Json.depthOfItems]
    split at hp
    · next q hq =>
      rcases List.mem_cons.mp hp with rfl | hp
      · have hj := levels_of_pair? j p hq
        omega
      · have hr := levels_of_pairsOf rest p hp
        omega
    · have hr := levels_of_pairsOf rest p hp
      omega

theorem levels_of_pair? : ∀ (j : Json) (p : String × Record), pair? j = some p →
    3 * (p.2.toNode.levels + 1) ≤ j.depth + 1
  | .array (.text (some key) :: j :: _), p, h => by
    rw [pair?] at h
    obtain ⟨r, hr, rfl⟩ := Option.map_eq_some_iff.mp h
    have hj := levels_of_ofJson? j r hr
    simp only [Json.depth, Json.depthOfItems]
    omega
  | .array [], _, h => by cases h
  | .array [j], _, h => by
    cases j with
    | text s => cases s <;> cases h
    | _ => cases h
  | .array (.text none :: _ :: _), _, h | .array (.null :: _ :: _), _, h
  | .array (.bool _ :: _ :: _), _, h | .array (.number _ :: _ :: _), _, h
  | .array (.array _ :: _ :: _), _, h | .array (.object _ :: _ :: _), _, h => by cases h
  | .null, _, h | .bool _, _, h | .number _, _, h | .text _, _, h | .object _, _, h => by cases h

end

end DiskShell.Record
