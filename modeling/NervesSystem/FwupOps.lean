import NervesSystem.FwupConf

namespace NervesSystem

/-- An ops.fw: fwup-ops.conf with the platform of the system it was built with. -/
structure OpsArchive where
  platform : String := "smt1019"
  architecture : String := "aarch64"

def opsFileResources : List String := ["extlinux-a.conf", "extlinux-b.conf"]

@[simps name requires]
def factoryReset : Task where
  name := "factory-reset"
  onInit :=
    [.info "Erasing all writable data",
     .trim .app,
     .rawMemset .app 256 0xff]

@[simps name requires]
def preventRevertA : Task where
  name := "prevent-revert.a"
  requires := [.ubootVariable "nerves_fw_active" "b"]
  onInit :=
    [.info "Preventing reverts to partition A",
     .ubootUnsetenv "a.nerves_fw_platform",
     .ubootUnsetenv "a.nerves_fw_architecture",
     .trim (.rootfs .a),
     .fatRm "Image.a",
     .fatRm "rk3576-smt1019.a.dtb"]

@[simps name requires]
def preventRevertB : Task where
  name := "prevent-revert.b"
  requires := [.ubootVariable "nerves_fw_active" "a"]
  onInit :=
    [.info "Preventing reverts to partition B",
     .ubootUnsetenv "b.nerves_fw_platform",
     .ubootUnsetenv "b.nerves_fw_architecture",
     .trim (.rootfs .b),
     .fatRm "Image.b",
     .fatRm "rk3576-smt1019.b.dtb"]

@[simps name requires]
def preventRevertFail : Task where
  name := "prevent-revert.fail"
  onInit := [.error "Error detecting active partition"]

section Tasks
variable (O : OpsArchive)

@[simps name requires]
def revertA : Task where
  name := "revert.a"
  requires :=
    [.ubootVariable "nerves_fw_active" "b",
     .ubootVariable "a.nerves_fw_platform" O.platform,
     .ubootVariable "a.nerves_fw_architecture" O.architecture]
  onInit :=
    [.info "Reverting to partition A",
     .ubootSetenv "nerves_fw_active" "a",
     .ubootSetenv "nerves_fw_validated" "1"]
  onResource :=
    [("extlinux-a.conf", [.fatWrite "extlinux/extlinux.conf" (.full (.conf extlinuxA)) none])]

@[simps name requires]
def revertB : Task where
  name := "revert.b"
  requires :=
    [.ubootVariable "nerves_fw_active" "a",
     .ubootVariable "b.nerves_fw_platform" O.platform,
     .ubootVariable "b.nerves_fw_architecture" O.architecture]
  onInit :=
    [.info "Reverting to partition B",
     .ubootSetenv "nerves_fw_active" "b",
     .ubootSetenv "nerves_fw_validated" "1"]
  onResource :=
    [("extlinux-b.conf", [.fatWrite "extlinux/extlinux.conf" (.full (.conf extlinuxB)) none])]

@[simps name requires]
def revertUnexpectedA : Task where
  name := "revert.unexpected.a"
  requires :=
    [.ubootVariable "a.nerves_fw_platform" O.platform,
     .ubootVariable "a.nerves_fw_architecture" O.architecture]
  onInit := [.error "It doesn't look like there's anything to revert to in partition B."]

@[simps name requires]
def revertUnexpectedB : Task where
  name := "revert.unexpected.b"
  requires :=
    [.ubootVariable "b.nerves_fw_platform" O.platform,
     .ubootVariable "b.nerves_fw_architecture" O.architecture]
  onInit := [.error "It doesn't look like there's anything to revert to in partition A."]

@[simps name requires]
def revertWrongplatform : Task where
  name := "revert.wrongplatform"
  onInit := [.error (wrongplatformText O.platform O.architecture)]

@[simps name requires]
def status (name device active text : String) : Task where
  name := name
  requires := [.pathOnDevice "/" device, .ubootVariable "nerves_fw_active" active]
  onInit := [.info text]

abbrev statusAA : Task := status "status.aa" "/dev/mmcblk0p2" "a" "a"

abbrev statusAB : Task := status "status.ab" "/dev/mmcblk0p2" "b" "a->b"

abbrev statusBB : Task := status "status.bb" "/dev/mmcblk0p3" "b" "b"

abbrev statusBA : Task := status "status.ba" "/dev/mmcblk0p3" "a" "b->a"

@[simps name requires]
def statusFail : Task where
  name := "status.fail"
  onInit := [.error "fail"]

@[simps name requires]
def validate : Task where
  name := "validate"
  onInit :=
    [.info "Validate",
     .ubootSetenv "nerves_fw_validated" "1",
     .ubootUnsetenv "upgrade_available",
     .ubootUnsetenv "bootcount"]

def fwupOpsConf : Config where
  fileResources := opsFileResources
  tasks :=
    [factoryReset, preventRevertA, preventRevertB, preventRevertFail, revertA O, revertB O,
     revertUnexpectedA O, revertUnexpectedB O, revertWrongplatform O,
     statusAA, statusAB, statusBB, statusBA, statusFail, validate]

end Tasks

end NervesSystem
