import PTop.Model.Ptop

/-!
# `database.c` — the statements of a cycle

Each function of `database.c` that writes opens a connection of its own and returns 1 where
`create_conn` fails, which none of its callers looks at.
-/

namespace PTop

open Framework

/-- The statements about the samples. -/
inductive Statement where
  | insertPs (pst : ProcessInfo)
  | insertSysInfo (st : SysInfo)
  | freeupPs (interval : u32) (now : Int)
  | freeupSysInfo (interval : u32) (now : Int)

/-- What a statement does where it arrives. -/
def Statement.run (db : Database) : Statement → Database
  | insertPs pst => PTop.insertPs pst db
  | insertSysInfo st => PTop.insertSysInfo st db
  | freeupPs interval now => PTop.freeupPs interval now db
  | freeupSysInfo interval now => PTop.freeupSysInfo interval now db

/-- The statements of a cycle, in the order in which they are sent. -/
def cycleStatements (cycle : ℕ) (inp : CycleInput) (out : CycleOutput) : List Statement :=
  out.rows.map .insertPs ++ .insertSysInfo out.sysRow ::
    if cycle % CLEAN_INTERVAL = 0 then
      [.freeupPs (BitVec.ofNat 32 CLEAN_INTERVAL) inp.purgeTime.1,
        .freeupSysInfo (BitVec.ofNat 32 CLEAN_INTERVAL) inp.purgeTime.2]
    else []

/-- A cycle, and which of its connections can be opened. -/
structure ConnectedInput extends CycleInput where
  createConn : ℕ → Bool

/-- The statements that arrive. -/
def arrived (createConn : ℕ → Bool) (sent : List Statement) : List Statement :=
  (sent.zipIdx.filter fun p => createConn p.2).map Prod.fst

/-- One pass of `main_loop` where connections may fail. -/
def mainLoopOver (conf : Conf) (inp : ConnectedInput) (s : PtopState) :
    Except Stop (PtopState × CycleOutput) := do
  let (s', out) ← mainLoop conf inp.toCycleInput s
  let sent := cycleStatements s.cycle inp.toCycleInput out
  return ({ s' with db := (arrived inp.createConn sent).foldl Statement.run s.db }, out)

end PTop
