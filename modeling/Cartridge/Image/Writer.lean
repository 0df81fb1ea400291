import Cartridge.Image.Allocator
import Cartridge.Image.IncludeFile

/-!
# Writing an image

A writer places data, at most once for equal contents, and remembers the addresses that are exported
under names.  `finish` makes the image and the include file from the same banks.
-/

namespace Cartridge

/-- How data was placed. -/
inductive Manner where
  | plain
  | notNull
  | fixed
deriving DecidableEq, Repr

def Manner.label : Manner → String
  | plain => ""
  | notNull => "not-null "
  | fixed => "fixed "

inductive WriterEvent where
  | reused (size address : Nat)
  | placed (manner : Manner) (size address : Nat)
  | tabled (name : String) (count : Nat)
deriving DecidableEq, Repr

def WriterEvent.message : WriterEvent → String
  | reused size address => s!"reusing {size} bytes at ${Text.hexUpper 6 address}"
  | placed manner size address =>
    s!"placed {size} {manner.label}bytes at ${Text.hexUpper 6 address}"
  | tabled name count => s!"long address table {name} has {count} entries"

structure Writer where
  map : MemoryMap
  allocator : Allocator
  /-- The addresses of contents, the latest first; the first entry of a content counts. -/
  placed : List (Bytes × Nat)
  constants : List (String × Int)
  symbols : List (String × Nat)
  /-- Tables with the number of their entries. -/
  tables : List (String × Nat)
  /-- What has been done, the latest first. -/
  events : List WriterEvent
deriving Repr

/-- A part of the image and the directives that go with it. -/
structure Image where
  binary : Bytes
  directives : List Directive
deriving Repr

namespace Writer

def new (map : MemoryMap) : Writer := ⟨map, .new map, [], [], [], [], []⟩

/-- The address at which a content was placed last. -/
def address? (w : Writer) (data : Bytes) : Option Nat :=
  (w.placed.find? fun p => p.1 == data).map Prod.snd

/-- The address of the first symbol with a name. -/
def symbol? (w : Writer) (name : String) : Option Nat :=
  (w.symbols.find? fun s => s.1 == name).map Prod.snd

def note (w : Writer) (event : WriterEvent) : Writer := { w with events := event :: w.events }

/-- Remembers data that an allocator has placed. -/
def record (w : Writer) (manner : Manner) (data : Bytes) (address : Nat) (a : Allocator) :
    Writer :=
  { w with
    allocator := a
    placed := (data, address) :: w.placed
    events := .placed manner data.length address :: w.events }

def addSymbol (w : Writer) (name : String) (address : Nat) : Writer :=
  { w with symbols := w.symbols ++ [(name, address)] }

def addConstant (w : Writer) (name : String) (value : Int) : Writer :=
  { w with constants := w.constants ++ [(name, value)] }

/-- The answer to a request, and the writer behind it. -/
abbrev Answer (α : Type) := Except PlacementError α × Writer

def place (w : Writer) (data : Bytes) : Answer Nat :=
  match w.allocator.add data with
  | (.error e, a) => (.error e, { w with allocator := a })
  | (.ok address, a) => (.ok address, w.record .plain data address a)

/-- Uses the address of equal data that was placed before. -/
def add (w : Writer) (data : Bytes) : Answer Nat :=
  match w.address? data with
  | some address => (.ok address, w.note (.reused data.length address))
  | none => w.place data

def placeNotNull (w : Writer) (data : Bytes) : Answer Nat :=
  match w.allocator.addNotNull data with
  | (.error e, a) => (.error e, { w with allocator := a })
  | (.ok address, a) => (.ok address, w.record .notNull data address a)

/-- Like `add`, at an address whose low sixteen bits are not zero. -/
def addNotNull (w : Writer) (data : Bytes) : Answer Nat :=
  match w.address? data with
  | some address =>
    if address % 0x10000 = 0 then w.placeNotNull data
    else (.ok address, w.note (.reused data.length address))
  | none => w.placeNotNull data

/-- Exports the address of an answer under a name. -/
def named (name : String) : Answer Nat → Answer Nat
  | (.ok address, w) => (.ok address, w.addSymbol name address)
  | (.error e, w) => (.error e, w)

def addNamed (w : Writer) (name : String) (data : Bytes) : Answer Nat := named name (w.add data)

def addNamedNotNull (w : Writer) (name : String) (data : Bytes) : Answer Nat :=
  named name (w.addNotNull data)

/-- Places data at the start of a bank, which must be empty; it is not shared with equal data. -/
def addFixed (w : Writer) (name : String) (bank : Nat) (data : Bytes) : Answer Nat :=
  if bank ≥ w.map.bankCount then (.error (.invalidBank bank), w)
  else
    let address := w.map.bankAddress bank
    match w.allocator.addFixed bank address data with
    | (.error e, a) => (.error e, { w with allocator := a })
    | (.ok (), a) =>
      (.ok address,
        ({ w with allocator := a }.note (.placed .fixed data.length address)).addSymbol name
          address)

/-- The addresses of items in order; the items before one that cannot be placed stay placed. -/
def addAll (w : Writer) : List Bytes → Answer (List Nat)
  | [] => (.ok [], w)
  | item :: items =>
    match w.add item with
    | (.error e, w) => (.error e, w)
    | (.ok address, w) =>
      match addAll w items with
      | (.error e, w) => (.error e, w)
      | (.ok addresses, w) => (.ok (address :: addresses), w)

/-- A table holds the low three bytes of addresses. -/
def tableBytes (addresses : List Nat) : Bytes :=
  addresses.flatMap fun (address : Nat) => littleEndian 3 address

/-- Places items and a table of their addresses, which is exported under a name. -/
def addTable (w : Writer) (name : String) (items : List Bytes) : Answer Nat :=
  match w.addAll items with
  | (.error e, w) => (.error e, w)
  | (.ok addresses, w) =>
    match w.addNamed name (tableBytes addresses) with
    | (.error e, w) => (.error e, w)
    | (.ok address, w) =>
      (.ok address,
        { w with tables := w.tables ++ [(name, items.length)] }.note
          (.tabled name items.length))

/-! ### Requests -/

inductive Request where
  | data (bytes : Bytes)
  | dataNotNull (bytes : Bytes)
  | named (name : String) (bytes : Bytes)
  | namedNotNull (name : String) (bytes : Bytes)
  | fixed (name : String) (bank : Nat) (bytes : Bytes)
  | table (name : String) (items : List Bytes)
  | constant (name : String) (value : Int)
deriving DecidableEq, Repr

/-- Meets a request; a constant has no address. -/
def perform (w : Writer) : Request → Answer (Option Nat)
  | .data bytes => addressed (w.add bytes)
  | .dataNotNull bytes => addressed (w.addNotNull bytes)
  | .named name bytes => addressed (w.addNamed name bytes)
  | .namedNotNull name bytes => addressed (w.addNamedNotNull name bytes)
  | .fixed name bank bytes => addressed (w.addFixed name bank bytes)
  | .table name items => addressed (w.addTable name items)
  | .constant name value => (.ok none, w.addConstant name value)
where
  addressed (answer : Answer Nat) : Answer (Option Nat) := (answer.1.map some, answer.2)

/-- Meets requests in order up to the first that cannot be met. -/
def performAll (w : Writer) : List Request → Answer Unit
  | [] => (.ok (), w)
  | r :: rs =>
    match w.perform r with
    | (.error e, w) => (.error e, w)
    | (.ok _, w) => performAll w rs

/-! ### The image -/

/-- The directives of banks from the bank `id`, whose data starts at an offset in the image. -/
def bankDirectives (path : String) (id offset : Nat) : List Bank → List Directive
  | [] => []
  | b :: bs =>
    [.openNamespace s!"RomData_Bank{id}", .assertCounter b.start] ++
      (if b.data.isEmpty then [] else [.insert path offset b.data.size]) ++
      [.closeNamespace] ++ bankDirectives path (id + 1) (offset + b.data.size) bs

def binary (w : Writer) : Bytes := w.allocator.banks.flatMap fun b => b.data.toList

def directives (w : Writer) (path : String) : List Directive :=
  w.constants.map (fun (name, value) => .constant name value) ++
    (if w.constants.isEmpty then [] else [.blank]) ++
    bankDirectives path 0 0 w.allocator.banks ++ [.blank] ++
    w.tables.map (fun (name, count) => .constant s!"{name}.count" count) ++
    w.symbols.map fun (name, address) => .address name address

/-- The image of the banks; `path` is the path of the image as the assembler sees it. -/
def finish (w : Writer) (path : String) : Except PlacementError Image :=
  match w.allocator.checkCapacity with
  | .error e => .error e
  | .ok () => .ok ⟨w.binary, w.directives path⟩

end Writer

end Cartridge
