import LinearProgram.FileTree
import LinearProgram.Proofs.Files.Laws

/-!
# `LinearProgram.Proofs.Files.Tree`: a tree of files is a lawful store

To follow a path one steps from directory to directory, and nothing that
is done to a tree takes a directory away.

* `KeepsDirectories` says that of two trees, and `walk_mono` that every
  path leads where it led before.
* `walk_append` and `walk_isDescent` say where a path below a directory
  leads: as many steps down as it has names, each to a place of its own.
* `node?_put_file` and `extends_createDirectories` say what is left alone
  when a file is stored, and when directories are made.

The instance puts these together.
-/

set_option autoImplicit false

namespace LinearProgram.FileTree

/-! ### Following paths in two trees -/

/-- Whether paths begin at the same location in two trees, and directories
of the first are directories of the second. -/
structure KeepsDirectories (t t' : FileTree) : Prop where
  here : t'.here = t.here
  directory : ∀ place, t.node? place = some .directory → t'.node? place = some .directory

/-- A path leads where it led. -/
theorem KeepsDirectories.walk_mono {t t' : FileTree} (h : KeepsDirectories t t') {path : Path}
    {place target : Location} (hwalk : t.walk place path = .ok target) :
    t'.walk place path = .ok target := by
  induction path generalizing place with
  | nil => exact hwalk
  | cons part rest ih =>
      rw [walk] at hwalk ⊢
      split at hwalk
      · cases hwalk
      · cases hwalk
      · rename_i hnode
        rw [h.directory place hnode]
        -- The four ways of taking a step are the same in both trees.
        split at hwalk
        · rename_i hstays
          rw [if_pos hstays]
          exact ih hwalk
        · rename_i hstays
          rw [if_neg hstays]
          split at hwalk
          · rename_i hup
            rw [if_pos hup]
            exact ih hwalk
          · rename_i hup
            rw [if_neg hup]
            split at hwalk
            · cases hwalk
            · rename_i hlong
              rw [if_neg hlong]
              exact ih hwalk

theorem KeepsDirectories.start_eq {t t' : FileTree} (h : KeepsDirectories t t') (path : Path) :
    t'.start path = t.start path := by
  rw [start, start, h.here]

theorem KeepsDirectories.locate_mono {t t' : FileTree} (h : KeepsDirectories t t') {path : Path}
    {place : Location} (hlocate : t.locate path = .ok place) : t'.locate path = .ok place := by
  rw [locate] at hlocate ⊢
  rw [h.start_eq]
  split at hlocate
  · exact h.walk_mono hlocate
  · cases hlocate

/-- A path that is read leads to a file. -/
theorem read_eq_ok_iff {t : FileTree} {path : Path} {content : List UInt8} :
    t.read path = .ok content
      ↔ ∃ place, t.locate path = .ok place ∧ t.node? place = some (.file content) := by
  unfold read
  cases t.locate path with
  | error e => simp
  | ok place => rcases hnode : t.node? place with _ | ⟨found⟩ | _ <;> simp [hnode]

/-- A file that is where it was is read as before. -/
theorem KeepsDirectories.read_mono {t t' : FileTree} (h : KeepsDirectories t t') {path : Path}
    {content : List UInt8} (hread : t.read path = .ok content)
    (hnode : ∀ place, t.locate path = .ok place → t.node? place = some (.file content) →
      t'.node? place = some (.file content)) : t'.read path = .ok content := by
  obtain ⟨place, hlocate, hfile⟩ := read_eq_ok_iff.mp hread
  exact read_eq_ok_iff.mpr ⟨place, h.locate_mono hlocate, hnode place hlocate hfile⟩

/-! ### Paths below a directory -/

theorem walk_append (t : FileTree) (place : Location) (p q : Path) :
    t.walk place (p ++ q) = match t.walk place p with
      | .ok target => t.walk target q
      | .error e => .error e := by
  induction p generalizing place with
  | nil => rfl
  | cons part rest ih =>
      rw [List.cons_append, walk, walk]
      split
      · rfl
      · rfl
      · split
        · exact ih _
        · split
          · exact ih _
          · split
            · rfl
            · exact ih _

/-- Names lead down. -/
theorem walk_isDescent {t : FileTree} {place target : Location} {p : Path}
    (hp : ∀ part ∈ p, Path.IsStep part) (hwalk : t.walk place p = .ok target) :
    target = place ++ p := by
  induction p generalizing place with
  | nil =>
      cases hwalk
      exact (List.append_nil _).symm
  | cons part rest ih =>
      obtain ⟨hstays, hup⟩ := hp part (List.mem_cons_self ..)
      rw [walk] at hwalk
      split at hwalk
      · cases hwalk
      · cases hwalk
      · rw [hstays, if_neg Bool.false_ne_true, if_neg hup] at hwalk
        split at hwalk
        · cases hwalk
        · rw [ih (fun q hq => hp q (List.mem_cons_of_mem _ hq)) hwalk, List.append_assoc]
          rfl

/-- What follows does not decide whether a path begins at the root. -/
theorem isAbsolute_append (directory : Path) {p q : Path} (hp : p.IsDescent) (hq : q.IsDescent) :
    (directory ++ p).isAbsolute = (directory ++ q).isAbsolute := by
  have hhead : ∀ {r : Path}, r.IsDescent → r.isAbsolute = false := by
    intro r hr
    unfold Path.isAbsolute
    split
    · exact absurd (hr.steps "" (List.mem_cons_self ..)).1 (by decide)
    · rfl
  obtain ⟨part, rest, rfl⟩ := List.exists_cons_of_ne_nil hp.nonempty
  obtain ⟨part', rest', rfl⟩ := List.exists_cons_of_ne_nil hq.nonempty
  match directory with
  | [] => exact (hhead hp).trans (hhead hq).symm
  | [x] => by_cases hx : x = "" <;> simp [Path.isAbsolute, hx]
  | x :: y :: others => by_cases hx : x = "" <;> simp [Path.isAbsolute, hx]

/-- What a path that leads down from a directory is followed from. -/
theorem locate_append {t : FileTree} {directory p : Path} {place : Location}
    (hlocate : t.locate (directory ++ p) = .ok place) (hp : p.IsDescent) :
    ∃ base, t.walk (if (directory ++ p).isAbsolute then [] else t.here) directory = .ok base
      ∧ place = base ++ p := by
  rw [locate] at hlocate
  split at hlocate
  · rename_i begin hstart
    have hbegin : begin = if (directory ++ p).isAbsolute then [] else t.here := by
      unfold start at hstart
      split at hstart
      · cases hstart
      · split at hstart
        · cases hstart
        · split at hstart
          · cases hstart
          · exact (Except.ok.inj hstart).symm
    rw [walk_append] at hlocate
    split at hlocate
    · rename_i base hbase
      exact ⟨base, hbegin ▸ hbase, walk_isDescent hp.steps hlocate⟩
    · cases hlocate
  · cases hlocate

/-- Two different ways down from a directory lead to different places. -/
theorem locate_ne {t : FileTree} {directory p q : Path} (hp : p.IsDescent) (hq : q.IsDescent)
    (hne : p ≠ q) {place place' : Location} (hplace : t.locate (directory ++ p) = .ok place)
    (hplace' : t.locate (directory ++ q) = .ok place') : place ≠ place' := by
  -- Both ways begin at the same directory, and from there they are as given.
  obtain ⟨base, hbase, rfl⟩ := locate_append hplace hp
  obtain ⟨base', hbase', rfl⟩ := locate_append hplace' hq
  rw [isAbsolute_append directory hp hq, hbase'] at hbase
  cases hbase
  exact fun heq => hne (List.append_cancel_left heq)

/-! ### Storing a file -/

/-- A file that can be stored has its path lead to a place that is no
directory, and there it is put. -/
theorem write_cases (t : FileTree) (path : Path) (content : List UInt8) :
    (∃ e, write path content t = (.error e, t))
      ∨ ∃ place, t.locate path = .ok place ∧ t.node? place ≠ some .directory
        ∧ write path content t = (.ok (), t.put place (.file content)) := by
  rw [write]
  cases hfile : t.locateFile path with
  | error e => exact .inl ⟨e, rfl⟩
  | ok place =>
      refine .inr ⟨place, ?_⟩
      rw [locateFile] at hfile
      rw [locate]
      split at hfile
      · cases hfile
      · rename_i begin hstart
        split at hfile
        · split at hfile <;> cases hfile
        · rw [hstart]
          split at hfile
          · rename_i target hwalk
            split at hfile
            · cases hfile
            · rename_i hnode
              cases hfile
              exact ⟨hwalk, fun h => hnode (beq_iff_eq.mpr h), rfl⟩
          · cases hfile

theorem keepsDirectories_put {t : FileTree} {place : Location} (hplace : t.node? place ≠ some .directory)
    (node : Node) : KeepsDirectories t (t.put place node) := by
  refine ⟨rfl, fun other hother => ?_⟩
  rw [node?_put]
  split
  · rfl
  · split
    · rename_i heq
      exact absurd (heq ▸ hother) hplace
    · exact hother

/-- What stands elsewhere is left alone. -/
theorem node?_put_of_ne {t : FileTree} {place other : Location} (h : other ≠ place) (node : Node) :
    (t.put place node).node? other = t.node? other := by
  rw [node?_put, if_neg h]
  split
  · rename_i habove
    rw [node?, if_pos habove]
  · rfl

theorem node?_put_self {t : FileTree} {place : Location} (h : t.node? place ≠ some .directory)
    (node : Node) : (t.put place node).node? place = some node := by
  rw [node?_put, if_pos rfl, if_neg]
  intro habove
  exact h (by rw [node?, if_pos habove])

/-! ### Making directories -/

/-- Whether a tree still has everything that another one has, at its
place. -/
structure Extends (t t' : FileTree) : Prop where
  here : t'.here = t.here
  node : ∀ place, t.node? place ≠ none → t'.node? place = t.node? place

theorem Extends.refl (t : FileTree) : Extends t t := ⟨rfl, fun _ _ => rfl⟩

theorem Extends.trans {t t' t'' : FileTree} (h : Extends t t') (h' : Extends t' t'') :
    Extends t t'' := by
  refine ⟨h'.here.trans h.here, fun place hplace => ?_⟩
  have hfirst := h.node place hplace
  rw [h'.node place (by rwa [hfirst]), hfirst]

theorem Extends.keepsDirectories {t t' : FileTree} (h : Extends t t') : KeepsDirectories t t' :=
  ⟨h.here, fun place hplace => (h.node place (by rw [hplace]; exact Option.some_ne_none _)).trans hplace⟩

theorem extends_makeDirectory (path : Path) (t : FileTree) :
    Extends t (makeDirectory path t).2 := by
  unfold makeDirectory
  split
  · exact .refl t
  · rename_i place _
    split
    · exact .refl t
    · rename_i hfree
      refine ⟨rfl, fun other hother => node?_put_of_ne (fun heq => hfree ?_) .directory⟩
      rw [← heq]
      exact Option.isSome_iff_ne_none.mpr hother

theorem extends_orDirectory {make : Action FileTree FileError Unit}
    (hmake : ∀ t, Extends t (make t).2) (path : Path) (t : FileTree) :
    Extends t (orDirectory path make t).2 := by
  have h := hmake t
  unfold orDirectory
  split
  · rename_i heq
    rwa [heq] at h
  · rename_i heq
    rw [heq] at h
    split <;> exact h

/-- Whatever comes of it, directories are only added. -/
theorem extends_makeInside (paths : List Path) (t : FileTree) :
    Extends t (makeInside paths t).2 := by
  induction paths generalizing t with
  | nil => exact .refl t
  | cons path above ih =>
      -- A directory is tried first, and again once those above it are there.
      have hmake := extends_orDirectory (extends_makeDirectory path) path
      have hfirst := hmake t
      unfold makeInside
      split
      · rename_i t₁ heq
        rw [heq] at hfirst
        unfold Action.andThen
        have habove := ih t₁
        split
        · rename_i heq₁
          rw [heq₁] at habove
          exact (hfirst.trans habove).trans (hmake _)
        · rename_i heq₁
          rw [heq₁] at habove
          exact hfirst.trans habove
      · exact hfirst

theorem extends_createDirectories (path : Path) (t : FileTree) :
    Extends t (createDirectories path t).2 := by
  unfold createDirectories
  split
  · exact .refl t
  · exact extends_makeInside _ t

/-! ### The laws -/

instance : LawfulStorage FileTree where
  isFile_of_read {t path content} h := by
    have hread : t.read path = .ok content := h
    show t.isFile path = true
    rw [isFile, hread]
  read_of_write {t t' path content} h := by
    have hwrite : write path content t = (.ok (), t') := h
    rcases write_cases t path content with ⟨e, heq⟩ | ⟨place, hlocate, hnode, heq⟩
    · rw [hwrite] at heq
      cases heq
    · rw [hwrite] at heq
      cases heq
      exact read_eq_ok_iff.mpr ⟨place, (keepsDirectories_put hnode _).locate_mono hlocate,
        node?_put_self hnode _⟩
  read_of_write_beside {t directory p q content} hp hq hne h other := by
    have hread : t.read (directory ++ p) = .ok content := h
    show (write (directory ++ q) other t).2.read (directory ++ p) = .ok content
    rcases write_cases t (directory ++ q) other with ⟨e, heq⟩ | ⟨place, hlocate, hnode, heq⟩
    · rw [heq]
      exact hread
    · rw [heq]
      refine (keepsDirectories_put hnode _).read_mono hread fun place' hlocate' hfile => ?_
      rw [node?_put_of_ne (locate_ne hp hq hne hlocate' hlocate), hfile]
  read_of_createDirectories {t path content} h directory := by
    have hextends := extends_createDirectories directory t
    refine hextends.keepsDirectories.read_mono h fun place _ hfile => ?_
    rw [hextends.node place (by rw [hfile]; exact Option.some_ne_none _), hfile]

end LinearProgram.FileTree
