import MgbaRs.Lib.Lts
import MgbaRs.Lib.Splice
import MgbaRs.Lib.Utf8
import MgbaRs.Lib.Offset
import MgbaRs.Lib.Fields
import MgbaRs.Lib.Blocks
import MgbaRs.Lib.Preproc
import MgbaRs.Lib.Cells
import MgbaRs.Lib.Checkpoint
import MgbaRs.Rust.Num
import MgbaRs.Rust.Str
import MgbaRs.VFile.Std
import MgbaRs.VFile.Model
import MgbaRs.VFile.Session
import MgbaRs.VFile.Seek
import MgbaRs.VFile.Refine
import MgbaRs.VFile.Mapping
import MgbaRs.Arm.Core
import MgbaRs.Trapper.Model
import MgbaRs.Trapper.Install
import MgbaRs.Trapper.Chain
import MgbaRs.Trapper.Hook
import MgbaRs.Machine.Step
import MgbaRs.Machine.SetPc
import MgbaRs.Machine.Shadow
import MgbaRs.Machine.Transparent
import MgbaRs.Machine.Handlers
import MgbaRs.Machine.Count
import MgbaRs.Machine.Rollback
import MgbaRs.Lifetime.Model
import MgbaRs.Lifetime.Boxes
import MgbaRs.Lifetime.Link
import MgbaRs.Core.Title
import MgbaRs.Core.Log
import MgbaRs.Core.Raw
import MgbaRs.BuildScript.Os
import MgbaRs.BuildScript.Vcxproj
import MgbaRs.BuildScript.Defines
import MgbaRs.BuildScript.Builtins
import MgbaRs.BuildScript.Main
import MgbaRs.Lifetime.Contract
import MgbaRs.Lifetime.Audio
import MgbaRs.VFile.Backends
