import Mathlib.Data.List.DropRight
import Cartridge.Proofs.CommandLine.Components
import Cartridge.Proofs.Image.RunImage
import Cartridge.Proofs.Project.Decoding

/-!
# The path of the binary in the include file

The directives that insert parts of the binary name it by one path, which is resolved from the
directory of the include file.  The run writes the binary itself to a path that is resolved from the
working directory.  However directories are linked, both lead to one file where the path of the
binary is absolute or begins with the directory of the include file, and where the include file lies
in the working directory.  Elsewhere the path of the binary is inserted as it is, and leads to
another file unless it climbs out of both directories.

A `Tree` is a file system at one moment.  In `Tree.plain` nothing is linked and every name leads
somewhere, so a place is the list of the names that lead to it from the root, and a relative path
is as good as its `Trail`.

Main statement: `Command.inserts_of_ofArguments`.
-/

namespace Cartridge.CommandLine

/-! ## Places -/

/-- Where names and the directories above lead.  Links are names that lead elsewhere. -/
structure Tree (Place : Type) where
  root : Place
  parent : Place → Option Place
  child : Place → Segment → Option Place

namespace Tree

section Resolving

variable {Place : Type} (t : Tree Place)

def move (l : Place) : Component → Option Place
  | .root => some t.root
  | .current => some l
  | .parent => t.parent l
  | .name s => t.child l s

/-- The place that a path leads to from a directory. -/
def resolve (l : Place) (cs : List Component) : Option Place := cs.foldlM t.move l

variable {t} {l : Place} {c : Component} {cs ds : List Component}

theorem resolve_cons :
    t.resolve l (c :: cs) = (t.move l c).bind fun l => t.resolve l cs := rfl

theorem resolve_append : t.resolve l (cs ++ ds) = (t.resolve l cs).bind fun l => t.resolve l ds :=
  List.foldlM_append

/-- An absolute path leads to the same place from everywhere. -/
theorem resolve_of_absolute (h : cs.head? = some .root) (l m : Place) :
    t.resolve l cs = t.resolve m cs := by
  cases cs with
  | nil => exact nomatch h
  | cons c cs =>
    obtain rfl := Option.some.inj h
    rfl

end Resolving

/-- The tree without links in which every name leads somewhere.  The root is its own parent. -/
def plain : Tree (List Segment) where
  root := []
  parent l := some l.dropLast
  child l s := some (l ++ [s])

end Tree

/-- How a relative path reads without the names that it leaves again: so many directories up, then
down along the names. -/
structure Trail where
  climb : Nat
  names : List Segment
deriving DecidableEq, Repr

namespace Trail

/-- A move at the end of a trail; relative paths never move to the root. -/
def extend (r : Trail) : Component → Trail
  | .root => r
  | .current => r
  | .parent => if r.names = [] then ⟨r.climb + 1, []⟩ else ⟨r.climb, r.names.dropLast⟩
  | .name s => ⟨r.climb, r.names ++ [s]⟩

def ofComponents (cs : List Component) : Trail := cs.foldl extend ⟨0, []⟩

/-- Where a trail ends. -/
def target (r : Trail) (l : List Segment) : List Segment := l.rdrop r.climb ++ r.names

variable {r : Trail} {c : Component} {l m : List Segment}

theorem dropLast_rdrop (l : List Segment) (n : Nat) : (l.rdrop n).dropLast = l.rdrop (n + 1) := by
  rw [List.rdrop, List.rdrop, List.dropLast_eq_take, List.take_take, List.length_take]
  congr 1
  omega

/-- A move at the end of a trail is a move from where it ends. -/
theorem move_target (h : c ≠ .root) :
    Tree.plain.move (r.target l) c = some ((r.extend c).target l) := by
  cases c with
  | root => exact absurd rfl h
  | current => rfl
  | name s =>
    change some (l.rdrop r.climb ++ r.names ++ [s]) = some (l.rdrop r.climb ++ (r.names ++ [s]))
    rw [List.append_assoc]
  | parent =>
    change some (l.rdrop r.climb ++ r.names).dropLast = _
    by_cases hnames : r.names = []
    · rw [extend, if_pos hnames, hnames, List.append_nil, dropLast_rdrop, target, List.append_nil]
    · rw [extend, if_neg hnames, List.dropLast_append_of_ne_nil hnames]
      rfl

theorem resolve_target {cs : List Component} (h : .root ∉ cs) :
    Tree.plain.resolve (r.target l) cs = some ((cs.foldl extend r).target l) := by
  induction cs generalizing r with
  | nil => rfl
  | cons c cs ih =>
    rw [List.mem_cons, not_or] at h
    rw [Tree.resolve_cons, move_target (Ne.symm h.1), Option.bind_some, ih h.2, List.foldl_cons]

/-- A relative path leads to where its trail ends. -/
theorem resolve_plain {cs : List Component} (h : .root ∉ cs) :
    Tree.plain.resolve l cs = some ((ofComponents cs).target l) := by
  have hstart : (Trail.mk 0 []).target l = l := by rw [target, List.rdrop_zero, List.append_nil]
  have hrun := resolve_target (r := ⟨0, []⟩) (l := l) h
  rw [hstart] at hrun
  exact hrun

/-- From two places a trail ends at the same place only behind a common directory. -/
theorem target_eq_iff : r.target l = r.target m ↔ l.rdrop r.climb = m.rdrop r.climb :=
  List.append_left_inj r.names

end Trail

namespace Path

/-- How many directories a relative path leaves upwards. -/
def climb (p : Path) : Nat := (Trail.ofComponents p.components).climb

/-- The root comes first in a path or nowhere. -/
theorem root_notMem_components {p : Path} (h : p.components.head? ≠ some .root) :
    .root ∉ p.components := by
  obtain ⟨s, rest, hseg⟩ := List.exists_cons_of_ne_nil p.segments_ne_nil
  rw [components_of_segments hseg] at h ⊢
  have hrest : Component.root ∉ rest.filterMap Component.ofSegment? := by
    rw [List.mem_filterMap]
    rintro ⟨t, -, ht⟩
    exact Component.ofSegment?_ne_root ht
  cases hfirst : Component.ofFirst? s rest with
  | none => exact hrest
  | some c =>
    rw [hfirst] at h
    rw [Option.toList_some, List.singleton_append, List.mem_cons, not_or]
    exact ⟨fun hc => h (congrArg some hc.symm), hrest⟩

end Path

/-! ## Command lines -/

section Arguments

variable {args : List String} {d e : Draft} {job : Job}

/-- Without the two options, no file is given a path of its own. -/
theorem Draft.paths_of_read (h : d.read args = some e) (ho : "-o" ∉ args) (hi : "-i" ∉ args) :
    e.binary = d.binary ∧ e.includeFile = d.includeFile := by
  fun_induction Draft.read d args with
  | case1 d =>
    obtain rfl := Option.some.inj h
    exact ⟨rfl, rfl⟩
  | case2 d word hdash => exact nomatch h
  | case3 d word hdash =>
    cases hproject : d.project with
    | none =>
      rw [hproject] at h
      obtain rfl := Option.some.inj h
      exact ⟨rfl, rfl⟩
    | some project =>
      rw [hproject] at h
      exact nomatch h
  | case4 d next rest ih => exact absurd List.mem_cons_self ho
  | case5 d next rest hword ih => exact absurd List.mem_cons_self hi
  | case6 d word next rest _ _ hstop => exact nomatch h
  | case7 d word next rest _ _ hstop ih =>
    exact ih h (fun hc => ho (List.mem_cons_of_mem word hc))
      fun hc => hi (List.mem_cons_of_mem word hc)

theorem Command.exists_read_of_ofArguments (h : ofArguments args = .compile job) :
    ∃ d, Draft.empty.read args = some d ∧ d.job? = some job := by
  unfold ofArguments at h
  split at h
  · exact nomatch h
  · split at h
    · exact nomatch h
    · cases hjob : (Draft.empty.read args).bind Draft.job? with
      | none =>
        rw [hjob] at h
        exact nomatch h
      | some j =>
        rw [hjob] at h
        obtain ⟨d, hread, hj⟩ := Option.bind_eq_some_iff.mp hjob
        exact ⟨d, hread, hj.trans (congrArg some (Command.compile.inj h))⟩

/-- Files without a path of their own are named after the project. -/
theorem Command.paths_of_ofArguments (h : ofArguments args = .compile job) (ho : "-o" ∉ args)
    (hi : "-i" ∉ args) : job.binary = job.project.withExtension "bin" ∧
      job.includeFile = job.project.withExtension "inc" := by
  obtain ⟨d, hread, hjob⟩ := exists_read_of_ofArguments h
  obtain ⟨hbinary, hinclude⟩ := Draft.paths_of_read hread ho hi
  obtain ⟨project, -, rfl⟩ := Option.map_eq_some_iff.mp hjob
  rw [hbinary, hinclude]
  exact ⟨rfl, rfl⟩

end Arguments

/-! ## The path that is written -/

theorem Path.components_eq_of_holder? {p : Path} {base : List Component}
    (h : p.holder? = some base) : base = p.components.dropLast := by
  unfold holder? at h
  split at h
  · exact nomatch h
  · exact nomatch h
  · exact (Option.some.inj h).symm

namespace Job

variable {Place : Type}

/-- `d` is the directory of the include file, as seen from the working directory `w`. -/
def IncludedIn (job : Job) (t : Tree Place) (w d : Place) : Prop :=
  ∃ base, job.includeFile.holder? = some base ∧ t.resolve w base = some d

/-- The path that is inserted leads from `d` to where the binary is written by a run in `w`. -/
def Finds (job : Job) (t : Tree Place) (w d : Place) : Prop :=
  t.resolve d job.insertPath.components = t.resolve w job.binary.components

/-- The path of the binary is absolute, or begins with the directory of the include file. -/
def Direct (job : Job) : Prop :=
  job.binary.components.head? = some .root ∨
    ∃ base, job.includeFile.holder? = some base ∧ base <+: job.binary.components

/-- What a run writes about the binary, and where that leads. -/
structure Inserts (job : Job) : Prop where
  /-- Every part of the binary is inserted by the same path. -/
  written : ∀ {σ : Type} (files : Files (StateM σ)) (s : σ) (c : Compiled),
    ((job.compile files).run.run s).1 = .ok c → ∀ path offset length,
      .insert path offset length ∈ c.image.directives → path = job.insertPath.text
  /-- However directories are linked, the path leads to the binary. -/
  finds : ∀ {Place : Type} (t : Tree Place) (w d : Place), job.IncludedIn t w d →
    job.Direct ∨ d = w → job.Finds t w d
  /-- Without links, the path leads to the binary in no other case but one: the path of the binary
  climbs to a directory above both of them. -/
  finds_iff : ∀ w d : List Segment, job.IncludedIn .plain w d →
    (job.Finds .plain w d ↔
      job.Direct ∨ d.rdrop job.binary.climb = w.rdrop job.binary.climb)

variable {job : Job} {t : Tree Place} {w d : Place}

theorem insertPath_eq {base : List Component} (h : job.includeFile.holder? = some base) :
    job.insertPath = job.binary.relativeTo base := by
  rw [insertPath, h]

/-- Elsewhere the path of the binary is inserted as it is. -/
theorem insertPath_of_not_direct (h : job.IncludedIn t w d) (hn : ¬job.Direct) :
    job.insertPath = job.binary := by
  obtain ⟨base, hbase, -⟩ := h
  rw [insertPath_eq hbase]
  exact Path.relativeTo_of_not_prefix fun hpre => hn (.inr ⟨base, hbase, hpre⟩)

theorem finds_of_prefix {base : List Component} (hbase : job.includeFile.holder? = some base)
    (hd : t.resolve w base = some d) (hpre : base <+: job.binary.components) :
    job.Finds t w d := by
  rw [Finds, insertPath_eq hbase, Path.components_relativeTo hpre, Tree.resolve_append, hd]
  rfl

theorem finds_of_direct (h : job.IncludedIn t w d) (hdirect : job.Direct) : job.Finds t w d := by
  obtain ⟨base, hbase, hd⟩ := h
  by_cases hpre : base <+: job.binary.components
  · exact finds_of_prefix hbase hd hpre
  · obtain habs | ⟨base', hbase', hpre'⟩ := hdirect
    · rw [Finds, insertPath_eq hbase, Path.relativeTo_of_not_prefix hpre]
      exact Tree.resolve_of_absolute habs d w
    · obtain rfl := Option.some.inj (hbase.symm.trans hbase')
      exact absurd hpre' hpre

theorem finds_of_not_direct (h : job.IncludedIn t w d) (hn : ¬job.Direct) :
    job.Finds t w d ↔ t.resolve d job.binary.components = t.resolve w job.binary.components := by
  rw [Finds, insertPath_of_not_direct h hn]

theorem finds_here (h : job.IncludedIn t w w) : job.Finds t w w := by
  by_cases hdirect : job.Direct
  · exact finds_of_direct h hdirect
  · exact (finds_of_not_direct h hdirect).mpr rfl

theorem finds_plain_iff {w d : List Segment} (h : job.IncludedIn .plain w d) :
    job.Finds .plain w d ↔
      job.Direct ∨ d.rdrop job.binary.climb = w.rdrop job.binary.climb := by
  by_cases hdirect : job.Direct
  · exact iff_of_true (finds_of_direct h hdirect) (.inl hdirect)
  · have hroot := Path.root_notMem_components fun habs => hdirect (.inl habs)
    rw [finds_of_not_direct h hdirect, or_iff_right hdirect, Trail.resolve_plain hroot,
      Trail.resolve_plain hroot, Option.some.injEq, Trail.target_eq_iff]
    rfl

/-- The include file that is named after the project lies beside the binary that is. -/
theorem direct_of_default (h : job.IncludedIn t w d)
    (hbinary : job.binary = job.project.withExtension "bin")
    (hinclude : job.includeFile = job.project.withExtension "inc") : job.Direct := by
  obtain ⟨base, hbase, -⟩ := h
  have hinc : '/' ∉ "inc".toList := by decide
  have hbin : '/' ∉ "bin".toList := by decide
  have hsame : base = job.binary.components.dropLast := by
    rw [Path.components_eq_of_holder? hbase, hinclude, hbinary,
      job.project.dropLast_components_withExtension hinc,
      job.project.dropLast_components_withExtension hbin]
  refine .inr ⟨base, hbase, ?_⟩
  rw [hsame]
  exact List.dropLast_prefix _

/-- A run that gives a value gives it in its second part. -/
theorem exists_of_bind_eq_ok {σ α β : Type} {x : ExceptT Failure (StateM σ) α}
    {f : α → ExceptT Failure (StateM σ) β} {s : σ} {b : β}
    (h : ((x >>= f).run.run s).1 = .ok b) : ∃ a s', ((f a).run.run s').1 = .ok b := by
  rw [ExceptT.run_bind, StateT.run_bind] at h
  rcases hx : StateT.run x.run s with ⟨answer, s'⟩
  rw [hx] at h
  cases answer with
  | error e => exact nomatch h
  | ok a => exact ⟨a, s', h⟩

theorem exists_compile_of_compile {σ : Type} {files : Files (StateM σ)} {s : σ} {c : Compiled}
    (h : ((job.compile files).run.run s).1 = .ok c) :
    ∃ project : Project, (project.compile job.insertPath.text).result = .ok c := by
  unfold compile at h
  obtain ⟨project, s₁, h⟩ := exists_of_bind_eq_ok h
  obtain ⟨map, s₂, h⟩ := exists_of_bind_eq_ok h
  exact ⟨{ project with memoryMap := some map }, h⟩

theorem path_of_insert {project : Project} {path : String} {c : Compiled}
    (h : (project.compile path).result = .ok c) {path' : String} {offset length : Nat}
    (hmem : .insert path' offset length ∈ c.image.directives) : path' = path := by
  obtain ⟨-, e, w, -, -, himage⟩ := Project.exists_placed h
  have hinsert : (path', offset, length) ∈ c.image.directives.filterMap Directive.insert? :=
    List.mem_filterMap.mpr ⟨_, hmem, rfl⟩
  rw [himage, Writer.filterMap_insert?_directives, List.mem_map] at hinsert
  obtain ⟨part, -, heq⟩ := hinsert
  exact (congrArg Prod.fst heq).symm

theorem inserts (job : Job) : job.Inserts where
  written files s c h path offset length hmem := by
    obtain ⟨project, hproject⟩ := exists_compile_of_compile h
    exact path_of_insert hproject hmem
  finds t w d h := by
    rintro (hdirect | rfl)
    · exact finds_of_direct h hdirect
    · exact finds_here h
  finds_iff w d h := finds_plain_iff h

end Job

def nestedJob : Job := ⟨⟨"town.toml"⟩, ⟨"out/rom.bin"⟩, ⟨"out/rom.inc"⟩⟩

def siblingJob : Job := ⟨⟨"town.toml"⟩, ⟨"build/rom.bin"⟩, ⟨"asm/rom.inc"⟩⟩

/-- **Where the include file finds the binary**: as `Inserts` says, and always if both files are
named after the project. -/
theorem Command.inserts_of_ofArguments {args : List String} {job : Job}
    (h : ofArguments args = .compile job) :
    job.Inserts ∧ ("-o" ∉ args → "-i" ∉ args → ∀ {Place : Type} (t : Tree Place) (w d : Place),
      job.IncludedIn t w d → job.Finds t w d) := by
  refine ⟨job.inserts, fun ho hi Place t w d hd => ?_⟩
  obtain ⟨hbinary, hinclude⟩ := paths_of_ofArguments h ho hi
  exact Job.finds_of_direct hd (Job.direct_of_default hd hbinary hinclude)

/-- A run in `/home` that writes `/home/out/rom.bin` and inserts it as `rom.bin`. -/
theorem Command.finds_nestedJob :
    ofArguments ["town.toml", "-o", "out/rom.bin", "-i", "out/rom.inc"] = .compile nestedJob ∧
      nestedJob.insertPath = ⟨"rom.bin"⟩ ∧
      nestedJob.Finds .plain ["home".toList] ["home".toList, "out".toList] := by
  have h : ofArguments ["town.toml", "-o", "out/rom.bin", "-i", "out/rom.inc"] =
    .compile nestedJob := by decide +kernel
  have hbase : nestedJob.includeFile.holder? = some [.name "out".toList] := by decide +kernel
  have hpre : [.name "out".toList] <+: nestedJob.binary.components :=
    ⟨[.name "rom.bin".toList], by decide +kernel⟩
  have hdir : nestedJob.IncludedIn .plain ["home".toList] ["home".toList, "out".toList] :=
    ⟨_, hbase, by decide +kernel⟩
  exact ⟨h, by decide +kernel,
    (inserts_of_ofArguments h).1.finds .plain _ _ hdir (.inl (.inr ⟨_, hbase, hpre⟩))⟩

/-- A run in `/home` that writes `/home/build/rom.bin`, and whose include file inserts
`/home/asm/build/rom.bin`. -/
theorem Command.not_finds_siblingJob :
    ofArguments ["town.toml", "-o", "build/rom.bin", "-i", "asm/rom.inc"] = .compile siblingJob ∧
      siblingJob.IncludedIn .plain ["home".toList] ["home".toList, "asm".toList] ∧
      ¬siblingJob.Finds .plain ["home".toList] ["home".toList, "asm".toList] := by
  refine ⟨by decide +kernel, ⟨[.name "asm".toList], by decide +kernel, by decide +kernel⟩, ?_⟩
  have hasm : Tree.plain.resolve ["home".toList, "asm".toList] siblingJob.insertPath.components =
    some ["home".toList, "asm".toList, "build".toList, "rom.bin".toList] := by decide +kernel
  have hbuild : Tree.plain.resolve ["home".toList] siblingJob.binary.components =
    some ["home".toList, "build".toList, "rom.bin".toList] := by decide +kernel
  rw [Job.Finds, hasm, hbuild]
  simp

end Cartridge.CommandLine
