import Rmc.Bookrunner.Hierarchy
import Rmc.Bookrunner.MirroredSummary
import Rmc.Bookrunner.Report
import Rmc.Bookrunner.TestHeader
import Rmc.Codegen.Aggregate
import Rmc.Codegen.AllocationData
import Rmc.Codegen.Atomic
import Rmc.Codegen.CheckedOp
import Rmc.Codegen.ClosureCall
import Rmc.Codegen.Discriminant
import Rmc.Codegen.EnsureAggregate
import Rmc.Codegen.EnumType
import Rmc.Codegen.LinkedCalls
import Rmc.Codegen.MirTy
import Rmc.Codegen.PlaceDenotes
import Rmc.Codegen.PlaceDeref
import Rmc.Codegen.PlaceFollows
import Rmc.Codegen.Projection
import Rmc.Codegen.RvalueRef
import Rmc.Codegen.SimdShuffle
import Rmc.Codegen.SizeAndAlign
import Rmc.Codegen.Static
import Rmc.Codegen.UnsizedTail
import Rmc.Codegen.Vtable
import Rmc.GenC.BignumToExpr
import Rmc.GenC.FixName
import Rmc.GenC.NamePass
import Rmc.GenC.NameTransformer
import Rmc.GenC.RenamedTable
import Rmc.GenC.TypeIdentifier
import Rmc.Goto.Bounds
import Rmc.Goto.Builtin
import Rmc.Goto.ByConstruction
import Rmc.Goto.Eval
import Rmc.Goto.Exec
import Rmc.Goto.Expr
import Rmc.Goto.IdentityTransformer
import Rmc.Goto.Lvalue
import Rmc.Goto.MachineEquivalent
import Rmc.Goto.Mutators
import Rmc.Goto.Occurs
import Rmc.Goto.Pass
import Rmc.Goto.PassTyping
import Rmc.Goto.Rename
import Rmc.Goto.RenameSymbol
import Rmc.Goto.Saturating
import Rmc.Goto.Sizeof
import Rmc.Goto.Stmt
import Rmc.Goto.StructInit
import Rmc.Goto.SymbolTable
import Rmc.Goto.SymbolTransformer
import Rmc.Goto.Syntax
import Rmc.Goto.Transformer
import Rmc.Goto.Traversal
import Rmc.Goto.Typ
import Rmc.Goto.TypeSize
import Rmc.Goto.Typing
import Rmc.Irep.Irep
import Rmc.Irep.Serialize
import Rmc.Irep.ToIrep
import Rmc.Irep.TypeEncoding
import Rmc.Lib.BitMask
import Rmc.Lib.Buffer
import Rmc.Lib.ByteMemory
import Rmc.Lib.Checked
import Rmc.Lib.Dict
import Rmc.Lib.Effect
import Rmc.Lib.FreshName
import Rmc.Lib.LastWins
import Rmc.Lib.Lines
import Rmc.Lib.Numeral
import Rmc.Lib.OrdMap
import Rmc.Lib.PartialFix
import Rmc.Lib.RoseTree
import Rmc.Lib.RoundUp
import Rmc.Lib.Run
import Rmc.Lib.Simulation
import Rmc.Lib.Store
import Rmc.Lib.Text
import Rmc.Lib.Tiling
import Rmc.Lib.TwoEnded
import Rmc.Lib.TwosComplement
import Rmc.Library.CVec
import Rmc.Library.HashSet
import Rmc.Library.NoBackIter
import Rmc.Library.NoBackVec
import Rmc.Library.RmcVec
import Rmc.Library.RmcVecConstructors
import Rmc.Library.RmcVecIter
import Rmc.Library.Validity
import Rmc.Link.Restrictions
import Rmc.MachineModel
import Rmc.Mir.Place
import Rmc.Mir.Ty
import Rmc.Scripts.CombinedArgs
import Rmc.Scripts.ResultParser
import Rmc.Scripts.ResultSummary
import Rmc.Scripts.TomlFlags
